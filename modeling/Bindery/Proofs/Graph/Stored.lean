import Bindery.Graph.Stored
import Bindery.Proofs.FlagNames
import Bindery.Proofs.Json.Record

/-!
# Graphs read back

A stored graph reads back as the graph that was stored. There is one lemma for each part of a graph:
its types, whose reader goes as deep as the stored value does, its parameters, its declarations and
those that wait.
-/

namespace Bindery

open Json

namespace TypeRef

/-! ### Types -/

mutual

theorem isSound_toJson : ∀ t : TypeRef, t.toJson.isSound
  | .named _ => rfl
  | .pointer t => by simp [toJson, isSound, isSoundFields, isSound_toJson t]
  | .array t size => by
    have ht := isSound_toJson t
    cases size <;> simp [toJson, isSound, isSoundFields, ofOption, ht]
  | .specialization _ args => by simp [toJson, isSound, isSoundFields, isSound_toJsonList args]
  | .function returns params => by
    simp [toJson, isSound, isSoundFields, isSound_toJson returns, isSound_toJsonList params]

theorem isSound_toJsonList : ∀ ts : List TypeRef, isSoundList (toJsonList ts)
  | [] => rfl
  | t :: ts => by simp [toJsonList, isSoundList, isSound_toJson t, isSound_toJsonList ts]

end

/-- The form is taken off an object that begins with it. -/
theorem split?_object {inner : Bool} {kind : String} {form : Form} {fs : List (String × Json)}
    (hform : Form.all.lookup kind = some form) (hfs : ∀ f ∈ fs, f.1 ≠ "kind") :
    split? inner (.object (("kind", .string kind) :: fs)) = some (form, .object fs) := by
  have hnone : fs.filter (fun f => f.1 == "kind") = [] := by
    simpa [List.filter_eq_nil_iff] using hfs
  have hrest : fs.filter (fun f => f.1 != "kind") = fs := by
    simpa [List.filter_eq_self] using hfs
  have hfield : field? (("kind", .string kind) :: fs) "kind" = some (.given (.string kind)) := by
    simp [field?, hnone]
  simp [split?, hfield, Form.ofJson?, hform, hrest]

mutual

theorem ofJsonWithin?_toJson : ∀ (t : TypeRef) {n : Nat} {b : Bool},
    t.toJson.depth < n → ofJsonWithin? n b t.toJson = some t
  | t, 0, _, h => absurd h (Nat.not_lt_zero _)
  | .named name, n + 1, b, _ => by
    have hsplit : split? b (TypeRef.named name).toJson
        = some (.named, .object [("name", .string name)]) :=
      split?_object (by decide) (by simp)
    have hrecord := record?_object [("name", .string name)] (by simp)
    simp only [List.map_cons, List.map_nil] at hrecord
    simp only [ofJsonWithin?, hsplit, hrecord, Option.bind_eq_bind, Option.bind_some,
      Option.pure_def, Field.required, text?_string]
  | .pointer t, n + 1, b, h => by
    have hdepth : t.toJson.depth < n := by
      simp only [toJson, depth, depthFields] at h
      omega
    have hsplit : split? b (TypeRef.pointer t).toJson
        = some (.pointer, .object [("pointee", t.toJson)]) :=
      split?_object (by decide) (by simp)
    have hrecord := record?_object [("pointee", t.toJson)] (by simp)
    simp only [List.map_cons, List.map_nil] at hrecord
    simp only [ofJsonWithin?, hsplit, hrecord, Option.bind_eq_bind, Option.bind_some,
      Option.pure_def, Field.required, ofJsonWithin?_toJson t hdepth]
  | .array t size, n + 1, b, h => by
    have hdepth : t.toJson.depth < n := by
      simp only [toJson, depth, depthFields] at h
      omega
    have hsplit : split? b (TypeRef.array t size).toJson
        = some (.array, .object [("element", t.toJson), ("size", ofOption .string size)]) :=
      split?_object (by decide) (by simp)
    have hrecord := record?_object
      [("element", t.toJson), ("size", ofOption .string size)] (by simp)
    have hsize := nullable_ofOption text?_string rfl size
    simp only [List.map_cons, List.map_nil] at hrecord
    simp only [ofJsonWithin?, hsplit, hrecord, Option.bind_eq_bind, Option.bind_some,
      Option.pure_def, Field.required, ofJsonWithin?_toJson t hdepth, hsize]
  | .specialization template args, n + 1, b, h => by
    have hdepth : depthList (toJsonList args) < n := by
      simp only [toJson, depth, depthFields] at h
      omega
    have hsplit : split? b (TypeRef.specialization template args).toJson
        = some (.specialization,
          .object [("template", .string template), ("arguments", .array (toJsonList args))]) :=
      split?_object (by decide) (by simp)
    have hrecord := record?_object
      [("template", .string template), ("arguments", .array (toJsonList args))] (by simp)
    simp only [List.map_cons, List.map_nil] at hrecord
    simp only [ofJsonWithin?, hsplit, hrecord, Option.bind_eq_bind, Option.bind_some,
      Option.pure_def, Field.required, text?_string, listOf?,
      mapM_ofJsonWithin?_toJson args hdepth]
  | .function returns params, n + 1, b, h => by
    simp only [toJson, depth, depthFields] at h
    have hreturns : returns.toJson.depth < n := by omega
    have hparams : depthList (toJsonList params) < n := by omega
    have hsplit : split? b (TypeRef.function returns params).toJson
        = some (.function,
          .object [("returns", returns.toJson), ("parameters", .array (toJsonList params))]) :=
      split?_object (by decide) (by simp)
    have hrecord := record?_object
      [("returns", returns.toJson), ("parameters", .array (toJsonList params))] (by simp)
    simp only [List.map_cons, List.map_nil] at hrecord
    simp only [ofJsonWithin?, hsplit, hrecord, Option.bind_eq_bind, Option.bind_some,
      Option.pure_def, Field.required, listOf?,
      ofJsonWithin?_toJson returns hreturns, mapM_ofJsonWithin?_toJson params hparams]

theorem mapM_ofJsonWithin?_toJson : ∀ (ts : List TypeRef) {n : Nat} {b : Bool},
    depthList (toJsonList ts) < n → (toJsonList ts).mapM (ofJsonWithin? n b) = some ts
  | [], _, _, _ => rfl
  | t :: ts, n, b, h => by
    simp only [toJsonList, depthList, Nat.max_lt] at h
    simp [toJsonList, List.mapM_cons, ofJsonWithin?_toJson t h.1, mapM_ofJsonWithin?_toJson ts h.2]

end

theorem ofJson?_toJson (t : TypeRef) : ofJson? t.toJson = some t := by
  rw [ofJson?, if_pos (isSound_toJson t)]
  exact ofJsonWithin?_toJson t (Nat.lt_succ_self _)

end TypeRef

/-! ### Declarations -/

theorem Kind.ofJson?_tag (k : Kind) : Kind.ofJson? (.string k.tag) = some k := Kind.ofTag?_tag k

theorem Parameter.ofJson?_toJson (p : Parameter) : ofJson? p.toJson = some p := by
  have hrecord := record?_object [("name", .string p.name), ("ty", p.type.toJson)] (by simp)
  simp only [List.map_cons, List.map_nil] at hrecord
  simp only [ofJson?, toJson, hrecord, Option.bind_eq_bind, Option.bind_some, Option.pure_def,
    Field.required, text?_string, TypeRef.ofJson?_toJson]

namespace Slot

/-- The fields of a stored declaration, with those that it leaves out. -/
def fields (s : Slot) : List (String × Option Json) :=
  [("id", some (.natural s.id)), ("kind", some (.string s.kind.tag)),
    ("name", some (.string s.name)), ("parent", some (ofOption .natural s.parent)),
    ("children", some (.array (s.children.map .natural))),
    ("ty", some (ofOption TypeRef.toJson s.type)),
    ("parameters",
      if s.parameters = [] then none else some (.array (s.parameters.map Parameter.toJson))),
    ("value", s.value.map .string), ("original_name", s.initialName.map .string),
    ("flags", some (.string s.flags.text))]

theorem toJson_eq (s : Slot) : s.toJson = ofFields s.fields := by
  simp only [toJson, ofFields, fields, present_cons]
  split <;> cases s.value <;> cases s.initialName <;> rfl

theorem ofJson?_toJson (s : Slot) : ofJson? s.toJson = some s := by
  have hrecord : record? fieldNames s.toJson = some (s.fields.map fun f => .ofValue f.2) := by
    rw [toJson_eq]
    exact record?_ofFields (by decide : fieldNames.Nodup)
  have hparent := nullable_ofOption natural?_natural rfl s.parent
  have hchildren := listOf?_map natural?_natural s.children
  have htype := nullable_ofOption TypeRef.ofJson?_toJson rfl s.type
  have hparameters := defaulted_ofValue Parameter.ofJson?_toJson s.parameters
  have hvalue := omissible_ofValue text?_string rfl s.value
  have hname := omissible_ofValue text?_string rfl s.initialName
  simp only [fields, List.map_cons, List.map_nil, Field.ofValue_some] at hrecord
  rw [ofJson?, hrecord]
  dsimp only [Option.bind_eq_bind, Option.bind_some, Option.pure_def, Field.required]
  simp only [Option.bind_some, natural?_natural, text?_string, Kind.ofJson?_tag, hparent,
    hchildren, htype, hparameters, hvalue, hname, Flags.ofText?_text]

end Slot

namespace Pending

theorem ofJson?_toJson (p : Pending) : ofJson? p.toJson = some p := by
  have hrecord := record?_object
    [("unit", .string p.unit), ("owner", ofOption .string p.owner), ("decl", .natural p.decl)]
    (by simp)
  have howner := nullable_ofOption text?_string rfl p.owner
  simp only [List.map_cons, List.map_nil] at hrecord
  simp only [ofJson?, toJson, hrecord, Option.bind_eq_bind, Option.bind_some, Option.pure_def,
    Field.required, text?_string, natural?_natural, howner]

end Pending

namespace Graph

def fields (g : Graph) : List (String × Option Json) :=
  [("decls", some (.array (g.slots.toList.map Slot.toJson))),
    ("units", some (.array (g.units.map .natural))),
    ("pending",
      if g.pending = [] then none else some (.array (g.pending.map Pending.toJson)))]

theorem toJson_eq (g : Graph) : g.toJson = ofFields g.fields := by
  simp only [toJson, ofFields, fields, present_cons]
  split <;> rfl

theorem stored_reads_back (g : Graph) : ofJson? g.toJson = some g := by
  have hrecord : record? ["decls", "units", "pending"] g.toJson
      = some (g.fields.map fun f => .ofValue f.2) := by
    rw [toJson_eq]
    have hnames : (g.fields.map Prod.fst).Nodup :=
      (by decide : ["decls", "units", "pending"].Nodup)
    exact record?_ofFields hnames
  have hslots := listOf?_map Slot.ofJson?_toJson g.slots.toList
  have hunits := listOf?_map natural?_natural g.units
  have hpending := defaulted_ofValue Pending.ofJson?_toJson g.pending
  simp only [fields, List.map_cons, List.map_nil, Field.ofValue_some] at hrecord
  simp only [ofJson?, hrecord, Option.bind_eq_bind, Option.bind_some]
  simp [Field.required, hslots, hunits, hpending]

end Graph

end Bindery
