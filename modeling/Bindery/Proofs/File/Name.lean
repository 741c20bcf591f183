import Bindery.Proofs.File.System
import Bindery.Proofs.Text.Raw

/-!
# Last names

A path leads to a place that ends in the last name of the path, unless that is made of dots. So
paths with different endings never lead to the same place, whatever their directories are.
-/

namespace Bindery

open Text

/-- What has no separator in it is the end of the last part. -/
theorem exists_splitOn_append {α : Type} [BEq α] [LawfulBEq α] {a : α} {t : List α} (ht : a ∉ t)
    (l : List α) : ∃ parts y, (l ++ t).splitOn a = parts ++ [y ++ t] := by
  by_cases hl : a ∈ l
  · obtain ⟨xs, ys, rfl⟩ := List.append_of_mem hl
    obtain ⟨parts, y, hy⟩ := exists_splitOn_append ht ys
    refine ⟨xs.splitOn a ++ parts, y, ?_⟩
    rw [List.append_assoc, List.cons_append, List.splitOn_append_cons_self, hy, List.append_assoc]
  · refine ⟨[], l, List.splitOn_eq_singleton fun h => ?_⟩
    exact (List.mem_append.1 h).elim hl ht
termination_by l.length
decreasing_by subst_vars; simp only [List.length_append, List.length_cons]; omega

namespace Path

variable {path base : Path} {z : RawText} {t : List Char} {c d : Char} {s s' : String}

/-- A name that is followed to a place of its own. -/
def IsName (z : RawText) : Prop := z ≠ .text "" ∧ z ≠ .text "." ∧ z ≠ .text ".."

instance (z : RawText) : Decidable (IsName z) := inferInstanceAs (Decidable (_ ∧ _))

/-- What ends in such a character is a name if it has no slash. -/
structure IsNameEnd (c : Char) : Prop where
  ascii : IsAscii [c]
  ne_slash : c ≠ '/'
  ne_dot : c ≠ '.'

instance (c : Char) : Decidable (IsNameEnd c) :=
  decidable_of_iff (IsAscii [c] ∧ c ≠ '/' ∧ c ≠ '.')
    ⟨fun h => ⟨h.1, h.2.1, h.2.2⟩, fun h => ⟨h.ascii, h.ne_slash, h.ne_dot⟩⟩

theorem isName_of_endsIn (h : z.EndsIn [c]) (hc : IsNameEnd c) : IsName z := by
  have hdot := hc.ne_dot
  refine ⟨?_, ?_, ?_⟩ <;> rintro rfl <;>
    simp [RawText.EndsIn, List.suffix_cons_iff, hdot] at h

theorem slash_notMem (ht : IsAscii t) (h : '/' ∉ t) : slash ∉ asciiBytes t := by
  intro hmem
  obtain ⟨c, hc, hbyte⟩ := List.mem_map.1 hmem
  have hnat := congrArg UInt8.toNat hbyte
  rw [toNat_toUInt8 (ht c hc)] at hnat
  exact h (Char.toNat_inj.1 (hnat.trans rfl : c.toNat = '/'.toNat) ▸ hc)

namespace IsNameEnd

theorem slash_notMem_chars (hc : IsNameEnd c) : '/' ∉ [c] := fun h =>
  hc.ne_slash (List.mem_singleton.1 h).symm

theorem slash_notMem_bytes (hc : IsNameEnd c) : slash ∉ asciiBytes [c] :=
  slash_notMem hc.ascii hc.slash_notMem_chars

end IsNameEnd

/-! ### Names of a path -/

theorem exists_names_concat (h : path.EndsIn [c]) (hc : IsNameEnd c) :
    ∃ init z, path.names = init ++ [z] ∧ z.EndsIn [c] := by
  cases path with
  | text s =>
    obtain ⟨r, hr⟩ := h
    obtain ⟨parts, y, hy⟩ := exists_splitOn_append hc.slash_notMem_chars r
    refine ⟨parts.map fun cs => .text (String.ofList cs), .text (String.ofList (y ++ [c])), ?_, ?_⟩
    · rw [names, ← hr, hy, List.map_append, List.map_singleton]
    · rw [RawText.EndsIn, String.toList_ofList]
      exact List.suffix_append _ _
  | bytes bs =>
    obtain ⟨r, rfl⟩ := h
    obtain ⟨parts, y, hy⟩ := exists_splitOn_append hc.slash_notMem_bytes r
    refine ⟨parts.map .ofBytes, .ofBytes (y ++ asciiBytes [c]), ?_,
      RawText.endsIn_ofBytes hc.ascii y⟩
    rw [names, hy, List.map_append, List.map_singleton]

/-- What comes after the last slash is a name, and so is what comes before it. -/
theorem exists_names_append (h : path.EndsIn (d :: '/' :: t)) (hd : IsNameEnd d) (ht : IsAscii t)
    (hslash : '/' ∉ t) :
    ∃ init y, path.names = init ++ [y, .text (String.ofList t)] ∧ y.EndsIn [d] := by
  cases path with
  | text s =>
    obtain ⟨r, hr⟩ := h
    obtain ⟨parts, y, hy⟩ := exists_splitOn_append hd.slash_notMem_chars r
    refine ⟨parts.map fun cs => .text (String.ofList cs), .text (String.ofList (y ++ [d])), ?_, ?_⟩
    · rw [names, ← hr, ← List.singleton_append, ← List.append_assoc,
        List.splitOn_append_cons_self, hy, List.splitOn_eq_singleton hslash, List.append_assoc,
        List.map_append]
      rfl
    · rw [RawText.EndsIn, String.toList_ofList]
      exact List.suffix_append _ _
  | bytes bs =>
    obtain ⟨r, rfl⟩ := h
    obtain ⟨parts, y, hy⟩ := exists_splitOn_append hd.slash_notMem_bytes r
    have hbytes : r ++ asciiBytes (d :: '/' :: t)
        = (r ++ asciiBytes [d]) ++ slash :: asciiBytes t := by
      rw [List.append_assoc]
      rfl
    refine ⟨parts.map .ofBytes, .ofBytes (y ++ asciiBytes [d]), ?_,
      RawText.endsIn_ofBytes hd.ascii y⟩
    rw [names, hbytes, List.splitOn_append_cons_self, hy,
      List.splitOn_eq_singleton (slash_notMem ht hslash), List.append_assoc, List.map_append,
      ← RawText.ofBytes_asciiBytes ht]
    rfl

theorem exists_steps_concat (h : path.EndsIn [c]) (hc : IsNameEnd c) :
    ∃ init z, path.steps = init ++ [z] ∧ z.EndsIn [c] := by
  obtain ⟨init, z, hnames, hz⟩ := exists_names_concat h hc
  refine ⟨init.filter (· != .text ""), z, ?_, hz⟩
  rw [steps, hnames, List.filter_append]
  exact congrArg _ (List.filter_cons_of_pos (bne_iff_ne.2 (isName_of_endsIn hz hc).1))

theorem exists_steps_append (h : path.EndsIn (d :: '/' :: t)) (hd : IsNameEnd d) (ht : IsAscii t)
    (hslash : '/' ∉ t) (hname : IsName (.text (String.ofList t))) :
    ∃ init y, path.steps = init ++ [y, .text (String.ofList t)] ∧ y.EndsIn [d] := by
  obtain ⟨init, y, hnames, hy⟩ := exists_names_append h hd ht hslash
  refine ⟨init.filter (· != .text ""), y, ?_, hy⟩
  rw [steps, hnames, List.filter_append]
  refine congrArg _ ?_
  rw [List.filter_cons_of_pos (by exact bne_iff_ne.2 (isName_of_endsIn hy hd).1),
    List.filter_cons_of_pos (by exact bne_iff_ne.2 hname.1)]
  rfl

/-! ### Joined paths -/

theorem endsIn_join (ht : IsAscii t) (hs : t <:+ s.toList) (base : Path) :
    (join base (.text s)).EndsIn t := by
  unfold join
  split
  · exact hs
  · split
    · exact RawText.endsIn_append ht _ hs
    · exact RawText.endsIn_append ht _ hs

theorem not_endsInSlash (h : path.EndsIn [c]) (hc : IsNameEnd c) : path.endsInSlash = false := by
  obtain ⟨r, hr⟩ := h.toBytes hc.ascii
  have hlast : path.toBytes.getLast? = some c.toUInt8 := by
    rw [← hr]
    exact List.getLast?_concat
  rw [endsInSlash, hlast]
  exact beq_false_of_ne fun heq =>
    hc.slash_notMem_bytes (Option.some.inj heq ▸ List.mem_singleton_self _)

/-- A directory whose name ends in `d`, and a name in it. -/
theorem endsIn_join_join (hd : IsNameEnd d) (hs' : [d] <:+ s'.toList) (hs : IsAscii s.toList)
    (hrel : isAbsolute (.text s) = false) (base : Path) :
    (join (join base (.text s')) (.text s)).EndsIn (d :: '/' :: s.toList) := by
  have hdir := endsIn_join hd.ascii hs' base
  have hempty : isEmpty (join base (.text s')) = false := by
    refine beq_false_of_ne fun heq => ?_
    rw [heq] at hdir
    exact absurd (List.suffix_nil.1 hdir) (List.cons_ne_nil _ _)
  rw [join, if_neg (by rw [hrel, hempty]; simp), if_neg (by rw [not_endsInSlash hdir hd]; simp)]
  have hmid := hdir.append hd.ascii (u := ['/']) (by decide)
  have hlast := hmid.append (hd.ascii.append (by decide)) hs
  rwa [String.ofList_toList] at hlast

end Path

/-! ### Where a path leads -/

namespace FileSystem

open Bindery.Path

variable {fs : FileSystem} {p q r : Place} {path : Path} {names : List RawText} {z : RawText}
  {t : List Char} {c d : Char}

theorem follow_concat_eq_ok : fs.follow p (names ++ [z]) = .ok q ↔
    ∃ r, fs.follow p names = .ok r ∧ fs.enter r z = .ok q := by
  unfold follow
  rw [List.foldlM_append]
  cases names.foldlM fs.enter p with
  | error e => simp [bind, Except.bind]
  | ok r =>
    show (([z].foldlM fs.enter r : Except FileError Place)) = _ ↔ _
    rw [List.foldlM_cons]
    cases hr : fs.enter r z <;> simp [bind, Except.bind, pure, Except.pure, hr]

theorem enter_eq_ok (h : fs.enter p z = .ok q) (hz : IsName z) :
    q = p ++ [z] ∧ fs.node? p = some .directory := by
  unfold enter at h
  cases hdir : fs.requireDirectory p with
  | error e =>
    rw [hdir] at h
    nomatch h
  | ok u =>
    rw [hdir] at h
    change (if z = .text ".." then _ else if z = .text "." then _ else _) = _ at h
    rw [if_neg hz.2.2, if_neg hz.2.1] at h
    refine ⟨?_, requireDirectory_eq_ok.1 hdir⟩
    split at h
    · nomatch h
    · exact (Except.ok.inj h).symm

theorem locate_eq_ok : fs.locate path = .ok p ↔
    checkPath path = .ok () ∧ fs.follow (fs.startOf path) path.steps = .ok p := by
  unfold locate
  cases checkPath path with
  | error e => simp [bind, Except.bind]
  | ok u => simp [bind, Except.bind]

/-- The place of a path ends as the path does. -/
theorem exists_concat_of_locate (h : fs.locate path = .ok p) (hpath : path.EndsIn [c])
    (hc : IsNameEnd c) : ∃ r z, p = r ++ [z] ∧ z.EndsIn [c] := by
  obtain ⟨init, z, hsteps, hz⟩ := exists_steps_concat hpath hc
  obtain ⟨-, hfollow⟩ := locate_eq_ok.1 h
  rw [hsteps] at hfollow
  obtain ⟨r, -, henter⟩ := follow_concat_eq_ok.1 hfollow
  exact ⟨r, z, (enter_eq_ok henter (isName_of_endsIn hz hc)).1, hz⟩

/-- The place of a file is in a directory whose name ends as the path says. -/
theorem exists_append_of_locate (h : fs.locate path = .ok p) (hpath : path.EndsIn (d :: '/' :: t))
    (hd : IsNameEnd d) (ht : IsAscii t) (hslash : '/' ∉ t)
    (hname : IsName (.text (String.ofList t))) :
    ∃ r y, p = r ++ [y, .text (String.ofList t)] ∧ y.EndsIn [d] := by
  obtain ⟨init, y, hsteps, hy⟩ := exists_steps_append hpath hd ht hslash hname
  obtain ⟨-, hfollow⟩ := locate_eq_ok.1 h
  rw [hsteps, List.append_cons] at hfollow
  obtain ⟨q, hq, hlast⟩ := follow_concat_eq_ok.1 hfollow
  obtain ⟨r, -, henter⟩ := follow_concat_eq_ok.1 hq
  refine ⟨r, y, ?_, hy⟩
  rw [(enter_eq_ok hlast hname).1, (enter_eq_ok henter (isName_of_endsIn hy hd)).1,
    ← List.append_cons]

end FileSystem

end Bindery
