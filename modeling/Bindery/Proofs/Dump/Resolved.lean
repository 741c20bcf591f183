import Bindery.Proofs.Dump.Unambiguous
import Bindery.Proofs.Dump.Written

/-!
# What the text of a type leaves open

A suffix behind a function without a written result stands, in the text of the type, behind `void`,
where it would be read as a suffix of the result; and an empty size is not seen. Two types that
dumps have got the same text just if they are the same after each suffix has gone where the text
has it (`resolved`). So the lines of a listing tell types apart but for this.
-/

namespace Bindery

namespace TypeRef

variable {t u : TypeRef} {wrap : TypeRef → TypeRef} {s : List Char}

/-! ### Where suffixes belong -/

/-- The type with a suffix on the innermost type that takes it: on the result of a function, unless
that ends in an array. -/
def attach (wrap : TypeRef → TypeRef) : TypeRef → TypeRef
  | .function r ps => if r.isArray then wrap (.function r ps) else .function (r.attach wrap) ps
  | t => wrap t

mutual

/-- The type with each suffix where its text puts it, and without empty sizes. -/
def resolved : TypeRef → TypeRef
  | .named n => .named n
  | .pointer t => t.resolved.attach .pointer
  | .array t size => t.resolved.attach (.array · (size.filter (· ≠ "")))
  | .specialization n args => .specialization n (resolvedEach args)
  | .function r ps => .function r.resolved (resolvedEach ps)

def resolvedEach : List TypeRef → List TypeRef
  | [] => []
  | t :: ts => t.resolved :: resolvedEach ts

end

/-- No suffix stands behind a function that returns `void`, and no size is empty. -/
def IsExplicit : TypeRef → Prop
  | .pointer t => t.returns? ≠ some .void
  | .array t size => t.returns? ≠ some .void ∧ size ≠ some ""
  | _ => True

theorem toList_spelling_attach (hwrap : ∀ t, (wrap t).spelling.toList = t.spelling.toList ++ s) :
    ∀ t : TypeRef, (t.attach wrap).spelling.toList = t.spelling.toList ++ s
  | .function r ps => by
    rw [attach]
    split
    · exact hwrap _
    · rw [toList_spelling_function, toList_spelling_function, toList_spelling_attach hwrap r]
      simp only [List.append_assoc, List.cons_append]
  | .named _ | .pointer _ | .array _ _ | .specialization _ _ => hwrap _

mutual

/-- The text of a type does not say where its suffixes were. -/
theorem spelling_resolved : ∀ t : TypeRef, t.resolved.spelling = t.spelling
  | .named n => rfl
  | .pointer t => by
    apply String.toList_inj.1
    rw [resolved, toList_spelling_attach toList_spelling_pointer, spelling_resolved t,
      toList_spelling_pointer]
  | .array t size => by
    have hsize : (size.filter (· ≠ "")).getD "" = size.getD "" := by
      cases size with
      | none => rfl
      | some s => by_cases hs : s = "" <;> simp [Option.filter, hs]
    apply String.toList_inj.1
    rw [resolved, toList_spelling_attach (fun t => toList_spelling_array t _),
      spelling_resolved t, toList_spelling_array, hsize]
  | .specialization n args => by
    rw [resolved, spelling, spelling, spellings_resolvedEach args]
  | .function r ps => by
    rw [resolved, spelling, spelling, spellings_resolvedEach ps, spelling_resolved r]

theorem spellings_resolvedEach : ∀ ts : List TypeRef, spellings (resolvedEach ts) = spellings ts
  | [] => rfl
  | [t] => spelling_resolved t
  | t :: u :: ts => by
    have ih := spellings_resolvedEach (u :: ts)
    replace ih : spellings (u.resolved :: resolvedEach ts) = spellings (u :: ts) := ih
    show t.resolved.spelling ++ ", " ++ spellings (u.resolved :: resolvedEach ts) =
      t.spelling ++ ", " ++ spellings (u :: ts)
    rw [spelling_resolved t, ih]

end

/-! ### Resolved types are bound -/

theorem all_attach (wrap : TypeRef → TypeRef) (hwrap : ∀ t, t.All IsBound →
    t.TakesSuffix (fun r => r.isArray) → (wrap t).All IsBound) :
    ∀ {t : TypeRef}, t.All IsBound → t.isArray = false → (t.attach wrap).All IsBound
  | .named _, h, ha | .pointer _, h, ha | .specialization _ _, h, ha => hwrap _ h ⟨ha, nofun⟩
  | .function r ps, h, ha => by
    rw [attach]
    split
    · next hr =>
      refine hwrap _ h ⟨ha, fun u hu => ?_⟩
      obtain rfl := Option.some.inj hu
      exact hr
    · next hr =>
      rw [All] at h ⊢
      exact ⟨trivial, all_attach wrap hwrap h.2.1 (Bool.not_eq_true _ ▸ hr), h.2.2⟩
  | .array _ _, _, ha => by cases ha

theorem attach_of_takesSuffix (h : t.TakesSuffix fun r => r.isArray) : t.attach wrap = wrap t := by
  cases t with
  | function r ps =>
    rw [attach, if_pos (h.2 r rfl)]
  | named _ | pointer _ | array _ _ | specialization _ _ => rfl

theorem isArray_attach_pointer (t : TypeRef) : (t.attach .pointer).isArray = false := by
  cases t with
  | function r ps =>
    rw [attach]
    split <;> rfl
  | named _ | pointer _ | array _ _ | specialization _ _ => rfl

mutual

theorem all_resolved : ∀ {t : TypeRef}, t.All IsFormed →
    t.resolved.All IsBound ∧ (t.isArray = false → t.resolved.isArray = false)
  | .named n, h => ⟨h, fun _ => rfl⟩
  | .pointer t, h => by
    rw [All] at h
    replace h : t.TakesSuffix (fun r => r = .void ∨ r.isArray) ∧ t.All IsFormed := h
    obtain ⟨hall, harray⟩ := all_resolved h.2
    refine ⟨all_attach pointer (fun t ht htakes => ⟨htakes, ht⟩) hall (harray h.1.1), fun _ => ?_⟩
    exact isArray_attach_pointer _
  | .array t size, h => by
    rw [All] at h
    obtain ⟨⟨htakes, hsize⟩, ht⟩ := h
    obtain ⟨hall, harray⟩ := all_resolved ht
    refine ⟨all_attach (array · (size.filter (· ≠ ""))) (fun t ht htakes =>
      ⟨⟨htakes, fun s hs => ?_⟩, ht⟩) hall (harray htakes.1), nofun⟩
    obtain ⟨hs, hne⟩ := Option.mem_filter_iff.1 hs
    exact ⟨by simpa using hne, hsize s hs⟩
  | .specialization n args, h => by
    rw [All] at h
    refine ⟨⟨⟨h.1.1, fun hnil => ?_⟩, allEach_resolvedEach h.2⟩, fun _ => rfl⟩
    cases args with
    | nil => exact h.1.2 rfl
    | cons t ts => cases hnil
  | .function r ps, h => by
    rw [All] at h
    exact ⟨⟨trivial, (all_resolved h.2.1).1, allEach_resolvedEach h.2.2⟩, fun _ => rfl⟩

theorem allEach_resolvedEach : ∀ {ts : List TypeRef}, AllEach IsFormed ts →
    AllEach IsBound (resolvedEach ts)
  | [], _ => trivial
  | _ :: _, h => ⟨(all_resolved h.1).1, allEach_resolvedEach h.2⟩

end

mutual

theorem resolved_of_isBound : ∀ {t : TypeRef}, t.All IsBound → t.resolved = t
  | .named n, _ => rfl
  | .pointer t, h => by
    rw [All] at h
    rw [resolved, resolved_of_isBound h.2, attach_of_takesSuffix h.1]
  | .array t size, h => by
    rw [All] at h
    have hsize : size.filter (· ≠ "") = size := by
      cases size with
      | none => rfl
      | some s => exact Option.filter_some_pos (decide_eq_true (h.1.2 s rfl).1)
    rw [resolved, resolved_of_isBound h.2, attach_of_takesSuffix h.1.1, hsize]
  | .specialization n args, h => by
    rw [All] at h
    rw [resolved, resolvedEach_of_isBound h.2]
  | .function r ps, h => by
    rw [All] at h
    rw [resolved, resolved_of_isBound h.2.1, resolvedEach_of_isBound h.2.2]

theorem resolvedEach_of_isBound : ∀ {ts : List TypeRef}, AllEach IsBound ts → resolvedEach ts = ts
  | [], _ => rfl
  | _ :: _, h => by
    rw [resolvedEach, resolved_of_isBound h.1, resolvedEach_of_isBound h.2]

end

/-- In an explicit type no suffix is where its text would not have it. -/
theorem isBound_of_isFormed (h : t.IsFormed) (hexplicit : t.IsExplicit) : t.IsBound := by
  have htakes : ∀ {u : TypeRef}, u.TakesSuffix (fun r => r = .void ∨ r.isArray) →
      u.returns? ≠ some .void → u.TakesSuffix fun r => r.isArray := by
    intro u hu hne
    refine ⟨hu.1, fun r hr => (hu.2 r hr).resolve_left ?_⟩
    rintro rfl
    exact hne hr
  cases t with
  | named n => exact h
  | pointer t => exact htakes h hexplicit
  | array t size =>
    refine ⟨htakes h.1 hexplicit.1, fun s hs => ⟨?_, h.2 s hs⟩⟩
    rintro rfl
    exact hexplicit.2 hs
  | specialization n args => exact h
  | function r ps => exact h

/-- Read types have the same text just if they are the same once resolved. -/
theorem spelling_eq_iff (ht : t.IsRead) (hu : u.IsRead) :
    t.spelling = u.spelling ↔ t.resolved = u.resolved := by
  constructor
  · intro h
    refine spelling_inj (all_resolved ht.formed).1 (all_resolved hu.formed).1 ?_
    rw [spelling_resolved, spelling_resolved, h]
  · intro h
    rw [← spelling_resolved t, h, spelling_resolved]

theorem IsRead.resolved_eq (ht : t.IsRead) (hexplicit : t.All IsExplicit) : t.resolved = t :=
  resolved_of_isBound (ht.formed.imp₂ (fun _ => isBound_of_isFormed) hexplicit)

/-! ### Types compared -/

mutual

/-- Equality of types, as a test. -/
def sameAs : TypeRef → TypeRef → Bool
  | .named n, .named m => n == m
  | .pointer t, .pointer u => t.sameAs u
  | .array t size, .array u size' => t.sameAs u && size == size'
  | .specialization n ts, .specialization m us => n == m && sameEach ts us
  | .function r ps, .function q qs => r.sameAs q && sameEach ps qs
  | _, _ => false

def sameEach : List TypeRef → List TypeRef → Bool
  | [], [] => true
  | t :: ts, u :: us => t.sameAs u && sameEach ts us
  | _, _ => false

end

mutual

theorem eq_of_sameAs : ∀ {t u : TypeRef}, t.sameAs u → t = u
  | .named n, u, h => by
    cases u with
    | named m => exact congrArg named (beq_iff_eq.1 h)
    | _ => cases h
  | .pointer t, u, h => by
    cases u with
    | pointer u => exact congrArg pointer (eq_of_sameAs h)
    | _ => cases h
  | .array t size, u, h => by
    cases u with
    | array u size' =>
      obtain ⟨ht, hsize⟩ := Bool.and_eq_true_iff.1 h
      rw [eq_of_sameAs ht, beq_iff_eq.1 hsize]
    | _ => cases h
  | .specialization n ts, u, h => by
    cases u with
    | specialization m us =>
      obtain ⟨hn, hts⟩ := Bool.and_eq_true_iff.1 h
      rw [beq_iff_eq.1 hn, eq_of_sameEach hts]
    | _ => cases h
  | .function r ps, u, h => by
    cases u with
    | function q qs =>
      obtain ⟨hr, hps⟩ := Bool.and_eq_true_iff.1 h
      rw [eq_of_sameAs hr, eq_of_sameEach hps]
    | _ => cases h

theorem eq_of_sameEach : ∀ {ts us : List TypeRef}, sameEach ts us → ts = us
  | [], us, h => by
    cases us with
    | nil => rfl
    | cons u us => cases h
  | t :: ts, us, h => by
    cases us with
    | nil => cases h
    | cons u us =>
      obtain ⟨ht, hts⟩ := Bool.and_eq_true_iff.1 h
      rw [eq_of_sameAs ht, eq_of_sameEach hts]

end

end TypeRef

namespace Graph

variable {g h : Graph} {i j : DeclId} {s s' : Slot} {origin origin' text text' : String}

/-- A line begins with the word for the kind, and a blank. -/
theorem kind_eq_of_line (hline : s.line = s'.line) : s.kind = s'.kind := by
  have hlabel : ∀ k : Kind, ' ' ∉ k.label.toList := by
    intro k
    cases k <;> decide
  have hcons : ∀ s : Slot, ∃ r, s.line.toList = s.kind.label.toList ++ ' ' :: r := by
    intro s
    simp only [Declaration.line, String.toList_append, List.append_assoc]
    exact ⟨_, rfl⟩
  obtain ⟨r, hr⟩ := hcons s
  obtain ⟨r', hr'⟩ := hcons s'
  rw [hline, hr'] at hr
  have h := (Text.append_cons_inj (hlabel _) (hlabel _) hr).1
  revert h
  cases s.kind <;> cases s'.kind <;> decide

/-- What stands behind the colon in a line is the text of the type. -/
theorem types_of_line (hg : ofText origin text = .ok g) (hh : ofText origin' text' = .ok h)
    (hs : g.get? i = some s) (hs' : h.get? j = some s') (hl : g.IsLive i) (hl' : h.IsLive j)
    (hline : s.line = s'.line) :
    s.type = none ∧ s'.type = none ∨ ∃ t u, s.type = some t ∧ s'.type = some u ∧ t.IsRead ∧
      u.IsRead ∧ t.spelling = u.spelling := by
  have hkind := kind_eq_of_line hline
  obtain ⟨d, rs, -, -, -, hread⟩ := isInOrder_of_ofText hg
  obtain ⟨d', rs', -, -, -, hread'⟩ := isInOrder_of_ofText hh
  have hsome : s.type.isSome ↔ s'.type.isSome := by
    rw [(hread i s hs).type, (hread' j s' hs').type, hkind]
  cases ht : s.type with
  | none =>
    cases ht' : s'.type with
    | none => exact .inl ⟨rfl, rfl⟩
    | some u => simp [ht, ht'] at hsome
  | some t =>
    cases ht' : s'.type with
    | none => simp [ht, ht'] at hsome
    | some u =>
      have hword : ∀ {n : String}, Dump.IsWords n → ':' ∉ n.toList := fun hn hmem =>
        absurd (hn.2 ':' hmem) (by decide)
      obtain ⟨hreads, hname⟩ := isWritten_of_ofText hg hs t ht
      obtain ⟨hreads', hname'⟩ := isWritten_of_ofText hh hs' u ht'
      have hchars := line_of_type hg hs hl ht
      rw [hline, line_of_type hh hs' hl' ht', hkind] at hchars
      have hrest := (List.cons.inj (List.append_cancel_left hchars)).2
      have hspelling := (Text.append_cons_inj (hword hname') (hword hname) hrest).2
      exact .inr ⟨t, u, rfl, rfl, hreads, hreads',
        String.toList_inj.1 (List.cons.inj hspelling).2.symm⟩

theorem of_mem_live (h : ofText origin text = .ok g) {live : List Found} {x : Found}
    (hlive : g.live? = some live) (hx : x ∈ live) :
    g.IsLive x.id ∧ g.get? x.id = some x.slot := by
  have hrooted := (isLoaded_ofText h).toWellFormed.isRooted
  obtain rfl := Option.some.inj (hlive.symm.trans hrooted.live?_eq)
  exact hrooted.mem_live.1 hx

theorem isRead_of_mem_live (h : ofText origin text = .ok g) {live : List Found} {x : Found}
    {t : TypeRef} (hlive : g.live? = some live) (hx : x ∈ live) (ht : x.slot.type = some t) :
    t.IsRead :=
  (isWritten_of_ofText h (of_mem_live h hlive hx).2 t ht).1

/-- A live declaration with the type has the line. -/
def shows (g : Graph) (line : String) (t : TypeRef) : Bool :=
  g.live?.any fun live => live.any fun x => x.slot.line == line && x.slot.type.any t.sameAs

theorem exists_of_shows {line : String} {t : TypeRef} (h : g.shows line t) :
    ∃ live x, g.live? = some live ∧ x ∈ live ∧ x.slot.line = line ∧ x.slot.type = some t := by
  simp only [shows, Option.any_eq_true, List.any_eq_true, Bool.and_eq_true, beq_iff_eq] at h
  obtain ⟨live, hlive, x, hx, hline, u, hu, hsame⟩ := h
  exact ⟨live, x, hlive, hx, hline, by rw [hu, TypeRef.eq_of_sameAs hsame]⟩

end Graph

namespace TypeRef

/-- Types have the same text just if they are the same with each suffix where the text has it, and
the same types if they are explicit. So much does a line in the listing of a dump say of the type
that is declared there. -/
theorem spelling_determines :
    (∀ t u : TypeRef, t.IsRead → u.IsRead →
      (t.spelling = u.spelling ↔ t.resolved = u.resolved) ∧
      (t.All IsExplicit → u.All IsExplicit → t.spelling = u.spelling → t = u)) ∧
    ∀ (origin text origin' text' : String) (g h : Graph) (live live' : List Found),
      Graph.ofText origin text = .ok g → Graph.ofText origin' text' = .ok h →
      g.live? = some live → h.live? = some live' → ∀ x ∈ live, ∀ y ∈ live',
        x.slot.line = y.slot.line → x.slot.kind = y.slot.kind ∧
          x.slot.type.map resolved = y.slot.type.map resolved ∧ ∀ t ∈ x.slot.type, t.IsRead := by
  refine ⟨fun t u ht hu => ⟨spelling_eq_iff ht hu, fun htx hux h => ?_⟩, ?_⟩
  · rw [← ht.resolved_eq htx, (spelling_eq_iff ht hu).1 h, hu.resolved_eq hux]
  intro origin text origin' text' g h live live' hg hh hlive hlive' x hx y hy hline
  obtain ⟨hl, hs⟩ := Graph.of_mem_live hg hlive hx
  obtain ⟨hl', hs'⟩ := Graph.of_mem_live hh hlive' hy
  refine ⟨Graph.kind_eq_of_line hline, ?_, fun t ht => Graph.isRead_of_mem_live hg hlive hx ht⟩
  obtain ⟨ht, hu⟩ | ⟨t, u, ht, hu, hread, hread', hspelling⟩ :=
    Graph.types_of_line hg hh hs hs' hl hl' hline
  · rw [ht, hu]
  · rw [ht, hu, Option.map_some, Option.map_some, (spelling_eq_iff hread hread').1 hspelling]

/-- The same lines from two dumps: one type is the same, and one only with its star behind the
result. -/
theorem spelling_determines_result :
    ∃ g, Graph.ofText "dump" "unit \"a\" \x7b
        typedef A = fn()*; typedef B = fn()->int[ 3 ]*; \x7d" = .ok g ∧
    ∃ h, Graph.ofText "dump" "unit \"a\" \x7b
        typedef A = fn() -> void*; typedef B = fn() -> int[3]*; \x7d" = .ok h ∧
    (∃ live live' x y t u, g.live? = some live ∧ h.live? = some live' ∧ x ∈ live ∧ y ∈ live' ∧
      x.slot.line = y.slot.line ∧ x.slot.type = some t ∧ y.slot.type = some u ∧
      t = .pointer (.function .void []) ∧ u = .function (.pointer .void) [] ∧
      x.slot.kind = y.slot.kind ∧ t.IsRead ∧ u.IsRead ∧ t.resolved = u.resolved ∧
      t.spelling = u.spelling) ∧
    ∃ live live' x y v w, g.live? = some live ∧ h.live? = some live' ∧ x ∈ live ∧ y ∈ live' ∧
      x.slot.type = some v ∧ y.slot.type = some w ∧ v.IsRead ∧ w.IsRead ∧ v.All IsExplicit ∧
      w.All IsExplicit ∧ v.spelling = w.spelling ∧ v = w := by
  refine Graph.exists_ofText_ofList (P := fun g =>
    g.shows "typedef A: fn() -> void*" (.pointer (.function .void [])) &&
      g.shows "typedef B: fn() -> int[3]*"
        (.pointer (.function (.array (.named "int") (some "3")) [])))
    (by decide +kernel) fun g hg hP => ?_
  refine Graph.exists_ofText_ofList (P := fun h =>
    h.shows "typedef A: fn() -> void*" (.function (.pointer .void) []) &&
      h.shows "typedef B: fn() -> int[3]*"
        (.pointer (.function (.array (.named "int") (some "3")) [])))
    (by decide +kernel) fun h hh hP' => ?_
  rw [Bool.and_eq_true] at hP hP'
  refine ⟨?_, ?_⟩
  · obtain ⟨live, x, hlive, hx, hline, ht⟩ := Graph.exists_of_shows hP.1
    obtain ⟨live', y, hlive', hy, hline', hu⟩ := Graph.exists_of_shows hP'.1
    have hlines := hline.trans hline'.symm
    obtain ⟨hkind, hresolved, hread⟩ :=
      spelling_determines.2 _ _ _ _ g h live live' hg hh hlive hlive' x hx y hy hlines
    have hreadu := Graph.isRead_of_mem_live hh hlive' hy hu
    rw [ht, hu] at hresolved
    have hsame := Option.some.inj hresolved
    exact ⟨live, live', x, y, _, _, hlive, hlive', hx, hy, hlines, ht, hu, rfl, rfl, hkind,
      hread _ ht, hreadu, hsame, (spelling_determines.1 _ _ (hread _ ht) hreadu).1.2 hsame⟩
  · obtain ⟨live, x, hlive, hx, -, hv⟩ := Graph.exists_of_shows hP.2
    obtain ⟨live', y, hlive', hy, -, hw⟩ := Graph.exists_of_shows hP'.2
    have hreadv := Graph.isRead_of_mem_live hg hlive hx hv
    have hreadw := Graph.isRead_of_mem_live hh hlive' hy hw
    have hexplicit : All IsExplicit
        (.pointer (.function (.array (.named "int") (some "3")) [])) := by
      simp [All, AllEach, IsExplicit, returns?, void]
    exact ⟨live, live', x, y, _, _, hlive, hlive', hx, hy, hv, hw, hreadv, hreadw, hexplicit,
      hexplicit, rfl, (spelling_determines.1 _ _ hreadv hreadw).2 hexplicit hexplicit rfl⟩

/-- A star behind a function without a result, and one behind `void` as its result: two dumps with
different types and the same listing. -/
theorem listing?_hides_result :
    ∃ g, Graph.ofText "dump" "unit \"a\" \x7b typedef A = fn()*; \x7d" = .ok g ∧
    ∃ h, Graph.ofText "dump" "unit \"a\" \x7b typedef A = fn() -> void*; \x7d" = .ok h ∧
      g.listing? = h.listing? ∧ ∃ live live' x y t u, g.live? = some live ∧
        h.live? = some live' ∧ x ∈ live ∧ y ∈ live' ∧ x.slot.type = some t ∧
        y.slot.type = some u ∧ t.IsRead ∧ u.IsRead ∧ t = .pointer (.function .void []) ∧
        u = .function (.pointer .void) [] ∧ t.spelling = u.spelling ∧ t ≠ u := by
  refine Graph.exists_ofText_ofList (P := fun g =>
    g.listing? == some "unit a\n└── typedef A: fn() -> void*\n" &&
      g.shows "typedef A: fn() -> void*" (.pointer (.function .void [])))
    (by decide +kernel) fun g hg hP => ?_
  refine Graph.exists_ofText_ofList (P := fun h =>
    h.listing? == some "unit a\n└── typedef A: fn() -> void*\n" &&
      h.shows "typedef A: fn() -> void*" (.function (.pointer .void) []))
    (by decide +kernel) fun h hh hP' => ?_
  rw [Bool.and_eq_true, beq_iff_eq] at hP hP'
  obtain ⟨live, x, hlive, hx, -, ht⟩ := Graph.exists_of_shows hP.2
  obtain ⟨live', y, hlive', hy, -, hu⟩ := Graph.exists_of_shows hP'.2
  have hspelling : spelling (.pointer (.function .void [])) =
      spelling (.function (.pointer .void) []) := by decide
  exact ⟨hP.1.trans hP'.1.symm, live, live', x, y, _, _, hlive, hlive', hx, hy, ht, hu,
    Graph.isRead_of_mem_live hg hlive hx ht, Graph.isRead_of_mem_live hh hlive' hy hu, rfl, rfl,
    hspelling, fun h => by cases h⟩

end TypeRef

end Bindery
