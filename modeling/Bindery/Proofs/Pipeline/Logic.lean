import Bindery.Pipeline.Step

/-!
# A logic for steps

`Step.Runs p w Q E`: the step `p` has a result from `w` on, which satisfies `Q` if it succeeds and
`E` if it fails. One rule for each way to make a step.
-/

namespace Bindery.Step

variable {α β : Type} {w : Work} {Q Q' : α → Work → Prop} {E E' : PipelineError → Work → Prop}

def Runs (p : Step α) (w : Work) (Q : α → Work → Prop) (E : PipelineError → Work → Prop) : Prop :=
  match p w with
  | none => False
  | some (.ok x, w') => Q x w'
  | some (.error e, w') => E e w'

theorem runs_iff {p : Step α} : Runs p w Q E ↔ ∃ r w', p w = some (r, w') ∧
    (∀ x, r = .ok x → Q x w') ∧ (∀ e, r = .error e → E e w') := by
  unfold Runs
  rcases p w with _ | ⟨e | x, w'⟩
  · simp
  · exact ⟨fun h => ⟨_, _, rfl, nofun, fun _ he => Except.error.inj he ▸ h⟩,
      fun ⟨_, _, hp, _, hE⟩ => by
        obtain ⟨rfl, rfl⟩ := Prod.mk.inj (Option.some.inj hp)
        exact hE e rfl⟩
  · exact ⟨fun h => ⟨_, _, rfl, fun _ hx => Except.ok.inj hx ▸ h, nofun⟩,
      fun ⟨_, _, hp, hQ, _⟩ => by
        obtain ⟨rfl, rfl⟩ := Prod.mk.inj (Option.some.inj hp)
        exact hQ x rfl⟩

theorem Runs.mono {p : Step α} (h : Runs p w Q E) (hQ : ∀ x w', Q x w' → Q' x w')
    (hE : ∀ e w', E e w' → E' e w') : Runs p w Q' E' := by
  unfold Runs at *
  rcases hp : p w with _ | ⟨e | x, w'⟩ <;> rw [hp] at h
  · exact h
  · exact hE _ _ h
  · exact hQ _ _ h

/-- Two things that are known of one run. -/
theorem Runs.and {p : Step α} (h : Runs p w Q E) (h' : Runs p w Q' E') :
    Runs p w (fun x w' => Q x w' ∧ Q' x w') fun e w' => E e w' ∧ E' e w' := by
  unfold Runs at *
  rcases hp : p w with _ | ⟨e | x, w'⟩ <;> rw [hp] at h h'
  · exact h
  · exact ⟨h, h'⟩
  · exact ⟨h, h'⟩

theorem runs_pure {x : α} (h : Q x w) : Runs (pure x) w Q E := h

theorem runs_bind {p : Step β} {f : β → Step α}
    (h : Runs p w (fun x w' => Runs (f x) w' Q E) E) : Runs (p >>= f) w Q E := by
  show Runs (Step.bind p f) w Q E
  unfold Runs Step.bind at *
  rcases hp : p w with _ | ⟨e | x, w'⟩ <;> rw [hp] at h
  · exact h
  · exact h
  · exact h

theorem Runs.of_bind_pure {p : Step β} {x : α} {Q : Work → Prop}
    (h : Runs (p >>= fun _ => pure x) w (fun _ w' => Q w') E) :
    Runs p w (fun _ w' => Q w') E := by
  change Runs (Step.bind p fun _ => Step.pure x) w _ E at h
  unfold Runs Step.bind at *
  rcases hp : p w with _ | ⟨e | y, w'⟩ <;> rw [hp] at h
  · exact h
  · exact h
  · exact h

theorem runs_fail {e : PipelineError} (h : E e w) : Runs (fail e : Step α) w Q E := h

theorem runs_graph {Q : Graph → Work → Prop} (h : Q w.graph w) : Runs graph w Q E := h

theorem runs_setGraph {g : Graph} {Q : Unit → Work → Prop} (h : Q () { w with graph := g }) :
    Runs (setGraph g) w Q E := h

theorem runs_log {topic : Topic} {level : Level} {message : String} {Q : Unit → Work → Prop}
    (h : ∀ log, Q () { w with log := log }) : Runs (log topic level message) w Q E := h _

theorem runs_report {p : PassReport} {Q : Unit → Work → Prop}
    (h : Q () { w with passes := w.passes ++ [p] }) : Runs (report p) w Q E := h

theorem runs_read {f : Graph → Option α} {x : α} (hf : f w.graph = some x) (h : Q x w) :
    Runs (read f) w Q E := by
  unfold Runs read
  rw [hf]
  exact h

theorem runs_change {f : Graph → Option Graph} {g : Graph} {Q : Unit → Work → Prop}
    (hf : f w.graph = some g) (h : Q () { w with graph := g }) : Runs (change f) w Q E := by
  unfold Runs change
  rw [hf]
  exact h

theorem runs_changeWith {f : Graph → Option (Graph × α)} {g : Graph} {x : α}
    (hf : f w.graph = some (g, x)) (h : Q x { w with graph := g }) :
    Runs (changeWith f) w Q E := by
  unfold Runs changeWith
  rw [hf]
  exact h

theorem runs_look {f : Graph → Lookup α} {r : Except PipelineError α}
    (hf : (f w.graph).run = some r) (hQ : ∀ x, r = .ok x → Q x w)
    (hE : ∀ e, r = .error e → E e w) : Runs (look f) w Q E := by
  unfold Runs look
  rw [hf]
  cases r with
  | ok x => exact hQ x rfl
  | error e => exact hE e rfl

theorem runs_within {p : Step α} {pass : String}
    (h : Runs p w Q fun e w' => E (.pass pass e) w') : Runs (within pass p) w Q E := by
  unfold Runs within at *
  rcases hp : p w with _ | ⟨e | x, w'⟩ <;> rw [hp] at h
  · exact h
  · exact h
  · exact h

theorem runs_ite {c : Prop} [Decidable c] {p q : Step α} (ht : c → Runs p w Q E)
    (hf : ¬ c → Runs q w Q E) : Runs (if c then p else q) w Q E := by
  split
  · next hc => exact ht hc
  · next hc => exact hf hc

/-- A loop, by an invariant over what is done and what is left. -/
theorem runs_forM {f : β → Step PUnit} (I : List β → List β → Work → Prop)
    (step : ∀ done x rest w, I done (x :: rest) w →
      Runs (f x) w (fun _ w' => I (done ++ [x]) rest w') E) :
    ∀ (l done : List β) (w : Work), I done l w →
      Runs (l.forM f) w (fun _ w' => I (done ++ l) [] w') E
  | [], done, w, h => by
    rw [List.append_nil]
    exact h
  | x :: l, done, w, h => by
    show Runs (f x >>= fun _ => l.forM f) w _ E
    refine runs_bind ((step done x l w h).mono (fun _ w' h' => ?_) fun _ _ he => he)
    rw [List.append_cons]
    exact runs_forM I step l (done ++ [x]) w' h'

/-- A sum, by an invariant over what is done, what is left and the count so far. -/
theorem runs_sum {f : β → Step Nat} (I : List β → List β → Nat → Work → Prop)
    (step : ∀ done x rest n w, I done (x :: rest) n w →
      Runs (f x) w (fun m w' => I (done ++ [x]) rest (n + m) w') E) :
    ∀ (l done : List β) (n : Nat) (w : Work), I done l n w →
      Runs (sum f l) w (fun m w' => I (done ++ l) [] (n + m) w') E
  | [], done, n, w, h => by
    rw [List.append_nil]
    exact h
  | x :: l, done, n, w, h => by
    rw [sum]
    refine runs_bind ((step done x l n w h).mono (fun m w' h' => ?_) fun _ _ he => he)
    refine runs_bind ((runs_sum I step l (done ++ [x]) (n + m) w' h').mono (fun k w'' h'' => ?_)
      fun _ _ he => he)
    refine runs_pure ?_
    rw [List.append_cons, ← Nat.add_assoc]
    exact h''

end Bindery.Step
