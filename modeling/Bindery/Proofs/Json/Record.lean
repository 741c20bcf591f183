import Bindery.Json.Record

/-!
# Reading back a record

`ofFields` is the object with the given fields, less those that have no value. If their names are
different, `record?` finds each of them, and each reader of a field has back what was written.
-/

namespace Bindery.Json

/-- The fields that have a value. -/
def present (fs : List (String × Option Json)) : List (String × Json) :=
  fs.filterMap fun f => f.2.map (f.1, ·)

def ofFields (fs : List (String × Option Json)) : Json := .object (present fs)

/-- What an object says of a field with the given value. -/
def Field.ofValue (x : Option Json) : Field := x.elim .missing .given

@[simp] theorem Field.ofValue_some (x : Json) : ofValue (some x) = .given x := rfl

variable {fs : List (String × Option Json)} {name : String} {x : Option Json}

theorem present_cons (f : String × Option Json) :
    present (f :: fs) = (f.2.map (f.1, ·)).toList ++ present fs := by
  cases h : f.2 <;> simp [present, h]

theorem filter_present_of_notMem (h : name ∉ fs.map Prod.fst) :
    (present fs).filter (fun f => f.1 == name) = [] := by
  simp only [present, List.filter_eq_nil_iff, List.mem_filterMap, Option.map_eq_some_iff]
  rintro f ⟨g, hg, -, -, rfl⟩
  simp only [beq_iff_eq]
  rintro rfl
  exact h (List.mem_map_of_mem hg)

theorem filter_present (hfs : (fs.map Prod.fst).Nodup) (h : (name, x) ∈ fs) :
    (present fs).filter (fun f => f.1 == name) = (x.map (name, ·)).toList := by
  induction fs with
  | nil => nomatch h
  | cons f fs ih =>
    obtain ⟨hf, hfs⟩ := List.nodup_cons.1 hfs
    rw [present_cons, List.filter_append]
    rcases List.mem_cons.1 h with rfl | h
    · rw [filter_present_of_notMem hf, List.append_nil]
      cases x <;> simp
    · have hne : f.1 ≠ name := fun he => hf (he ▸ List.mem_map_of_mem h)
      rw [ih hfs h]
      cases hx : f.2 <;> simp [hne]

theorem field?_present (hfs : (fs.map Prod.fst).Nodup) (h : (name, x) ∈ fs) :
    field? (present fs) name = some (.ofValue x) := by
  rw [field?, filter_present hfs h]
  cases x <;> rfl

theorem record?_ofFields (hfs : (fs.map Prod.fst).Nodup) :
    record? (fs.map Prod.fst) (ofFields fs) = some (fs.map fun f => .ofValue f.2) := by
  -- the fields are looked up in all of `fs`, so the induction is on a part of it
  suffices h : ∀ gs : List (String × Option Json), (∀ f ∈ gs, f ∈ fs) →
      (gs.map Prod.fst).mapM (field? (present fs)) = some (gs.map fun f => .ofValue f.2) from
    h fs fun _ => id
  intro gs hgs
  induction gs with
  | nil => rfl
  | cons f gs ih =>
    have hf := field?_present hfs (hgs f (List.mem_cons_self ..))
    have hrest := ih fun g hg => hgs g (List.mem_cons_of_mem f hg)
    simp [List.mapM_cons, hf, hrest]

theorem record?_object (fs : List (String × Json)) (hfs : (fs.map Prod.fst).Nodup) :
    record? (fs.map Prod.fst) (.object fs) = some (fs.map fun f => .given f.2) := by
  have hnames : (fs.map fun f => (f.1, some f.2)).map Prod.fst = fs.map Prod.fst := by simp
  have hpresent : present (fs.map fun f => (f.1, some f.2)) = fs := by
    rw [present, List.filterMap_map]
    exact List.filterMap_some
  have h := record?_ofFields (hnames.symm ▸ hfs)
  rw [hnames, ofFields, hpresent, List.map_map] at h
  exact h

/-! ### Reading one field -/

theorem text?_string (s : String) : text? (.string s) = some s := rfl

theorem natural?_natural (n : Nat) : natural? (.natural n) = some n := rfl

section Readers

variable {α : Type} {read : Json → Option α} {write : α → Json}

theorem nullable_ofOption (h : ∀ a, read (write a) = some a) (hnull : read .null = none)
    (a : Option α) : Field.nullable read (.given (ofOption write a)) = some a := by
  cases a with
  | none => rfl
  | some a =>
    have ha := h a
    show Field.nullable read (.given (write a)) = some (some a)
    cases hw : write a with
    | null => rw [hw, hnull] at ha; nomatch ha
    | _ => simp only [Field.nullable, ← hw, ha, Option.map_some]

theorem omissible_ofValue (h : ∀ a, read (write a) = some a) (hnull : read .null = none)
    (a : Option α) : Field.omissible read (.ofValue (a.map write)) = some a := by
  cases a with
  | none => rfl
  | some a =>
    have ha := h a
    show Field.omissible read (.given (write a)) = some (some a)
    cases hw : write a with
    | null => rw [hw, hnull] at ha; nomatch ha
    | _ => simp only [Field.omissible, ← hw, ha, Option.map_some]

theorem listOf?_map (h : ∀ a, read (write a) = some a) (l : List α) :
    listOf? read (.array (l.map write)) = some l := by
  show (l.map write).mapM read = some l
  induction l with
  | nil => rfl
  | cons a l ih => simp [List.mapM_cons, h, ih]

/-- A list that is left out if it is empty. -/
theorem defaulted_ofValue (h : ∀ a, read (write a) = some a) (l : List α) :
    Field.defaulted (listOf? read) []
      (.ofValue (if l = [] then none else some (.array (l.map write)))) = some l := by
  split
  · next hl => rw [hl]; rfl
  · exact listOf?_map h l

end Readers

end Bindery.Json
