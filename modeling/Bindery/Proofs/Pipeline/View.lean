import Bindery.Pipeline.Attach
import Bindery.Proofs.Graph.View

/-!
# Searches in views

What a selector finds in a graph it finds in every view of it, and where it fails it fails there
with the same error: it reads kinds, names, types and whether classes have a body, and follows
parents and children, but never a number itself. The same holds of the place where something pending
goes.
-/

namespace Bindery

variable {α β γ δ : Type}

/-- Where the first search has a result, the second one has that result under `φ`. -/
def Lookup.Carries (φ : α → β) (x : Lookup α) (y : Lookup β) : Prop :=
  ∀ r, x.run = some r → y.run = some (r.map φ)

namespace Lookup

theorem carries_pure {φ : α → β} {a : α} {b : β} (h : φ a = b) : Carries φ (pure a) (pure b) := by
  rintro r hr
  obtain rfl := Option.some.inj hr
  rw [← h]
  rfl

theorem carries_throw {φ : α → β} (e : PipelineError) :
    Carries φ (throw e : Lookup α) (throw e : Lookup β) := by
  rintro r hr
  obtain rfl := Option.some.inj hr
  rfl

theorem carries_bind {φ : α → β} {ψ : γ → δ} {x : Lookup α} {y : Lookup β} {p : α → Lookup γ}
    {q : β → Lookup δ} (hx : Carries φ x y) (hp : ∀ a, Carries ψ (p a) (q (φ a))) :
    Carries ψ (x >>= p) (y >>= q) := by
  intro r hr
  replace hr : x.run.bind (ExceptT.bindCont p) = some r := hr
  show y.run.bind (ExceptT.bindCont q) = some (r.map ψ)
  obtain ⟨s, hs, hr⟩ := Option.bind_eq_some_iff.1 hr
  rw [hx s hs, Option.bind_some]
  cases s with
  | error e =>
    obtain rfl := Option.some.inj hr
    rfl
  | ok a => exact hp a r hr

theorem carries_option {φ : α → β} {x : Option α} {y : Option β}
    (h : ∀ a, x = some a → y = some (φ a)) :
    Carries φ (liftM x : Lookup α) (liftM y : Lookup β) := by
  intro r hr
  cases x with
  | none => exact absurd hr nofun
  | some a =>
    rw [h a rfl]
    obtain rfl := Option.some.inj hr
    rfl

theorem carries_except {φ : α → β} {x : Except PipelineError α} {y : Except PipelineError β}
    (h : y = x.map φ) : Carries φ (liftM x : Lookup α) (liftM y : Lookup β) := by
  intro r hr
  obtain rfl := Option.some.inj hr
  rw [h]
  rfl

end Lookup

open Lookup

theorem findSingle_map (ι : DeclId → DeclId) (ids : List DeclId) (d : String) :
    findSingle (ids.map ι) d = (findSingle ids d).map ι := by
  rcases ids with _ | ⟨a, _ | ⟨b, l⟩⟩
  · rfl
  · rfl
  · simp [findSingle, Except.map]

/-- The scope under the other number of its unit. -/
def Scope.seen (ι : DeclId → DeclId) (scope : Scope) : Scope := ⟨ι scope.unit⟩

namespace Graph.View

variable {ι : DeclId → DeclId} {f : Slot → Slot} {g h : Graph} {scope : Scope}

variable (V : View ι f g h)
include V

theorem resolveUnit (file : String) : Carries ι (g.resolveUnit file) (h.resolveUnit file) := by
  refine carries_bind (φ := List.map (Found.seen ι f)) (carries_option fun xs hxs => ?_)
    fun xs => ?_
  · rw [V.units_eq]
    exact mapM_map_eq_some (fun u _ x hx => V.find?_eq hx) hxs
  · have hp : ∀ s, ((f s).name == file) = (s.name == file) := fun s => by rw [V.name_eq]
    rw [map_id_filter (p := fun s => s.name == file) hp]
    dsimp only
    rw [findSingle_map]
    rcases findSingle _ _ with (_ | _ | _ | _ | _) | id
    all_goals first | exact carries_throw _ | exact carries_pure rfl

theorem primary (header : String) :
    Carries (Scope.seen ι) (Scope.primary g header) (Scope.primary h header) :=
  carries_bind (V.resolveUnit header) fun _ => carries_pure rfl

theorem resolveClass (name : String) : Carries ι (g.resolveClass name) (h.resolveClass name) := by
  refine carries_bind (φ := List.map ι) (carries_option fun ids hids => ?_) fun ids => ?_
  · refine V.liveWhere?_eq (fun s => ?_) hids
    rw [V.kind_eq, V.name_eq, V.isComplete_eq]
  · exact carries_except (findSingle_map ι ids _)

theorem resolveNamespace (name : Option String) : Carries ι (Selector.resolveNamespace g scope name)
    (Selector.resolveNamespace h (scope.seen ι) name) := by
  refine carries_bind (φ := List.map ι) (carries_option fun ids hids => ?_) fun ids => ?_
  · refine V.childrenWhere?_eq (fun s => ?_) hids
    rw [V.kind_eq, V.name_eq]
  · exact carries_except (findSingle_map ι ids _)

omit V in
/-- A search for the only declaration among some. -/
theorem one {x y : Option (List DeclId)} {d : String}
    (hx : ∀ ids, x = some ids → y = some (ids.map ι)) :
    Carries (List.map ι) (do return [← findSingle (← x) d] : Lookup (List DeclId))
      (do return [← findSingle (← y) d]) :=
  carries_bind (carries_option hx) fun ids =>
    carries_bind (carries_except (findSingle_map ι ids d)) fun _ => carries_pure rfl

theorem answersTo (kind : Kind) (name : String) (s : Slot) :
    Selector.answersTo kind name (f s) = Selector.answersTo kind name s := by
  rw [Selector.answersTo, Selector.answersTo, V.kind_eq, V.name_eq]

/-- Selectors find the same in a view, in the same order, or fail with the same error. -/
theorem resolve (sel : Selector) :
    Carries (List.map ι) (sel.resolve g scope) (sel.resolve h (scope.seen ι)) := by
  cases sel with
  | «namespace» name => exact carries_bind (V.resolveNamespace name) fun _ => carries_pure rfl
  | record name => exact carries_bind (V.resolveClass name) fun _ => carries_pure rfl
  | member kind owner name =>
    refine carries_bind (V.resolveClass owner) fun c => one fun ids hids => ?_
    exact V.childrenWhere?_eq (V.answersTo kind.kind name) hids
  | function name => exact one fun ids hids => V.liveWhere?_eq (V.answersTo .function name) hids
  | enumeration name =>
    exact one fun ids hids => V.liveWhere?_eq (V.answersTo .enumeration name) hids
  | «alias» space name =>
    refine carries_bind (V.resolveNamespace (some space)) fun c => one fun ids hids => ?_
    exact V.childrenWhere?_eq (V.answersTo .alias name) hids
  | enumerationsWithSuffix suffix =>
    refine carries_option fun ids hids => V.liveWhere?_eq (fun s => ?_) hids
    rw [V.kind_eq, V.name_eq]
  | enumerationsContaining part =>
    refine carries_option fun ids hids => V.liveWhere?_eq (fun s => ?_) hids
    rw [V.kind_eq, V.name_eq]
  | itemsWithSuffix suffix =>
    refine carries_option fun ids hids => V.liveWhere?_eq (fun s => ?_) hids
    rw [V.kind_eq, V.name_eq]
  | templateProperties template =>
    refine carries_bind (φ := List.map ι) (carries_option fun ids hids => ?_) fun cs => ?_
    · exact V.childrenWhere?_eq (fun s => by rw [V.kind_eq]) hids
    · refine carries_bind (φ := List.map (List.map ι)) (carries_option fun ids hids => ?_)
        fun ids => ?_
      · refine mapM_map_eq_some (fun c _ xs hxs => V.childrenWhere?_eq (fun s => ?_) hxs) hids
        rw [V.kind_eq, V.type_eq]
      · exact carries_pure List.map_flatten

theorem destination (p : Pending) :
    Carries ι (g.destination p) (h.destination { p with decl := ι p.decl }) := by
  refine carries_bind (V.resolveUnit p.unit) fun u => ?_
  obtain ⟨file, _ | owner, decl⟩ := p
  · exact carries_pure rfl
  · refine carries_bind (φ := List.map (Found.seen ι f))
      (carries_option fun xs hxs => V.descendants?_eq hxs) fun xs => ?_
    have hq : ∀ s, ((f s).kind == .record && (f s).name == owner && (f s).isComplete) =
        (s.kind == .record && s.name == owner && s.isComplete) := fun s => by
      rw [V.kind_eq, V.name_eq, V.isComplete_eq]
    dsimp only
    rw [map_id_filter (p := fun s => s.kind == .record && s.name == owner && s.isComplete) hq]
    exact carries_except (findSingle_map ι _ _)

end Graph.View

end Bindery
