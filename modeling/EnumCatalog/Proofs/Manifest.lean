import EnumCatalog.Settings
import Mathlib

/-!
# What the settings depend on

Of a manifest only one value matters, that of `package.metadata.pgenum`, and of a table only which
values stand under which keys. So values are compared up to the order of keys (`Toml.Value.Same`),
and manifests with the same value there, or without one, give the same settings
(`Settings.ofManifest?_congr`).

A table of settings is accepted if and only if each of its keys is that of a field and its value of
the field's type (`Settings.isSome_ofEntries_iff`). A field that is left out has the same value as
one that is set to its default, so such a key can be deleted (`Settings.ofEntries_without`).
-/

set_option autoImplicit false

namespace EnumCatalog

namespace Toml.Value

/-! ## 1. Values up to the order of keys -/

/-- The same value, the order of keys aside. -/
inductive Same : Value → Value → Prop where
  | string (s : String) : Same (.string s) (.string s)
  | boolean (b : Bool) : Same (.boolean b) (.boolean b)
  | number : Same .number .number
  | dateTime : Same .dateTime .dateTime
  | array {vs ws : List Value} (h : List.Forall₂ Same vs ws) : Same (.array vs) (.array ws)
  | table {es fs : List (String × Value)}
      (h : ∀ key, Option.Rel Same (es.lookup key) (fs.lookup key)) : Same (.table es) (.table fs)

variable {v w : Value}

theorem mem_of_lookup_eq_some {entries : List (String × Value)} {key : String}
    (h : entries.lookup key = some v) : (key, v) ∈ entries := by
  obtain ⟨before, after, rfl, -⟩ := List.lookup_eq_some_iff.mp h
  exact List.mem_append_right _ List.mem_cons_self

theorem Same.refl (v : Value) : Same v v := by
  match v with
  | .string s => exact .string s
  | .boolean b => exact .boolean b
  | .number => exact .number
  | .dateTime => exact .dateTime
  | .array vs => exact .array (List.forall₂_same.mpr fun v _ => Same.refl v)
  | .table es =>
    refine .table fun key => ?_
    cases hfound : es.lookup key with
    | none => exact .none
    | some inner =>
      have hmem : (key, inner) ∈ es := mem_of_lookup_eq_some hfound
      exact .some (Same.refl inner)
termination_by v
decreasing_by
  all_goals
    have := List.sizeOf_lt_of_mem ‹_ ∈ _›
    simp at *
    omega

theorem Same.string?_eq (h : Same v w) : v.string? = w.string? := by
  cases h <;> rfl

theorem Same.boolean?_eq (h : Same v w) : v.boolean? = w.boolean? := by
  cases h <;> rfl

theorem mapM_string?_eq {vs ws : List Value} (h : List.Forall₂ Same vs ws) :
    vs.mapM string? = ws.mapM string? := by
  induction h with
  | nil => rfl
  | cons hv _ ih => rw [List.mapM_cons, List.mapM_cons, hv.string?_eq, ih]

theorem Same.strings?_eq (h : Same v w) : v.strings? = w.strings? := by
  cases h with
  | array hvs => exact mapM_string?_eq hvs
  | _ => rfl

/-! ## 2. Values under keys -/

/-- The value under a key of a table. -/
def get? (key : String) : Value → Option Value
  | .table entries => entries.lookup key
  | _ => none

/-- What stands under a key is a table, if anything does. -/
def HasTable (v : Value) (key : String) : Prop :=
  ∀ inner, v.get? key = some inner → ∃ entries, inner = .table entries

/-- The value of `package.metadata.pgenum` in a manifest. -/
def settings? (manifest : Value) : Option Value :=
  ((manifest.get? "package").bind (get? "metadata")).bind (get? "pgenum")

/-- `package` and `package.metadata` are tables, or absent. -/
structure IsManifest (v : Value) : Prop where
  package : v.HasTable "package"
  metadata : ∀ package, v.get? "package" = some package → package.HasTable "metadata"

theorem isManifest_of_lookup {entries package metadata : List (String × Value)}
    (h : entries.lookup "package" = some (.table package))
    (h' : package.lookup "metadata" = some (.table metadata)) :
    (table entries).IsManifest where
  package inner hinner := ⟨package, Option.some.inj (hinner.symm.trans h)⟩
  metadata inner hinner := by
    obtain rfl : inner = .table package := Option.some.inj (hinner.symm.trans h)
    exact fun inner hinner => ⟨metadata, Option.some.inj (hinner.symm.trans h')⟩

end Toml.Value

open Toml (Value)

namespace Settings

/-! ## 3. Only one value of a manifest matters -/

theorem exists_table_of_parse? {text : String} {v : Value} (h : Toml.parse? text = some v) :
    ∃ entries, v = .table entries := by
  obtain ⟨ls, -, h⟩ := Option.bind_eq_some_iff.mp h
  obtain ⟨draft, -, h⟩ := Option.bind_eq_some_iff.mp h
  exact ⟨_, (Option.some.inj h).symm⟩

/-- In a table, a field is the value under its key. -/
theorem throughField_eq {α : Type} {v : Value} (hv : ∃ entries, v = .table entries) (key : String)
    (read : Value → Option (Option α)) :
    throughField key read v = match v.get? key with
      | some inner => read inner
      | none => some none := by
  obtain ⟨entries, rfl⟩ := hv
  rw [throughField, onlyField, Value.get?]
  cases entries.lookup key with
  | none => rfl
  | some inner => rfl

/-- The settings are those of the value in its place. -/
theorem ofManifest?_eq {text : String} {v : Value} (h : Toml.parse? text = some v)
    (hv : v.IsManifest) : ofManifest? text =
      match v.settings? with
      | some w => (ofValue w).map some
      | none => some none := by
  rw [ofManifest?, h, Option.bind_eq_bind, Option.bind_some,
    throughField_eq (exists_table_of_parse? h), Value.settings?]
  cases hpackage : v.get? "package" with
  | none => rfl
  | some package =>
    simp only [Option.bind_some]
    rw [throughField_eq (hv.package package hpackage)]
    cases hmetadata : package.get? "metadata" with
    | none => rfl
    | some metadata =>
      simp only [Option.bind_some]
      rw [throughField_eq (hv.metadata package hpackage metadata hmetadata)]

/-! ## 4. A table of settings -/

/-- All keys of a table have a property if and only if those have it that a value stands under. -/
theorem all_keys_iff {entries : List (String × Value)} :
    (entries.all fun e => keys.contains e.1) = true ↔
      ∀ key v, entries.lookup key = some v → key ∈ keys := by
  rw [List.all_eq_true]
  constructor
  · intro h key v hv
    exact List.contains_iff_mem.mp (h (key, v) (Value.mem_of_lookup_eq_some hv))
  · intro h e he
    have hsome : (entries.lookup e.1).isSome = true :=
      List.lookup_isSome_iff.mpr ⟨e, he, beq_self_eq_true e.1⟩
    obtain ⟨v, hv⟩ := Option.isSome_iff_exists.mp hsome
    exact List.contains_iff_mem.mpr (h e.1 v hv)

variable {es fs : List (String × Value)}

/-- What is read of a field depends on the value under its key. -/
theorem fieldOr_congr {α : Type} {key : String} {read : Value → Option α} (standard : α)
    (hread : ∀ v w, Value.Same v w → read v = read w)
    (h : Option.Rel Value.Same (es.lookup key) (fs.lookup key)) :
    fieldOr es key read standard = fieldOr fs key read standard := by
  unfold fieldOr
  generalize es.lookup key = found at h
  generalize fs.lookup key = found' at h
  cases h with
  | some hvw => exact hread _ _ hvw
  | none => rfl

theorem ofEntries_congr (h : ∀ key, Option.Rel Value.Same (es.lookup key) (fs.lookup key)) :
    ofEntries es = ofEntries fs := by
  have hkeys : (es.all fun e => keys.contains e.1) = fs.all fun e => keys.contains e.1 := by
    rw [Bool.eq_iff_iff, all_keys_iff, all_keys_iff]
    refine forall_congr' fun key => ?_
    have hkey := h key
    generalize es.lookup key = found at hkey
    generalize fs.lookup key = found' at hkey
    cases hkey with
    | some _ => simp
    | none => simp
  have hstring (key : String) (standard : String) :=
    fieldOr_congr standard (fun _ _ hvw => hvw.string?_eq) (h key)
  unfold ofEntries
  rw [hkeys, fieldOr_congr [] (fun _ _ hvw => by rw [hvw.strings?_eq]) (h "scan-paths"),
    fieldOr_congr none (fun _ _ hvw => by rw [hvw.string?_eq]) (h "output-file"),
    hstring "crate-name", hstring "runtime-crate", hstring "marker",
    fieldOr_congr _ (fun _ _ hvw => hvw.boolean?_eq) (h "diagnostics")]

/-- An array gives its values to the fields in order. -/
theorem rel_lookup_zip {vs ws : List Value} (h : List.Forall₂ Value.Same vs ws) (ks : List String)
    (key : String) :
    Option.Rel Value.Same ((ks.zip vs).lookup key) ((ks.zip ws).lookup key) := by
  induction ks generalizing vs ws with
  | nil => exact .none
  | cons k ks ih =>
    cases h with
    | nil => exact .none
    | cons hv hvs =>
      rw [List.zip_cons_cons, List.zip_cons_cons, List.lookup_cons, List.lookup_cons]
      split
      · exact .some hv
      · exact ih hvs

/-- The same value gives the same settings. -/
theorem ofValue_congr {v w : Value} (h : Value.Same v w) : ofValue v = ofValue w := by
  cases h with
  | table hkeys => exact ofEntries_congr hkeys
  | array hvs => exact ofEntries_congr (rel_lookup_zip hvs keys)
  | _ => rfl

/-- Manifests with the same value in the place of the settings, or without one, give the same
settings. -/
theorem ofManifest?_congr {text text' : String} {v v' : Value} (h : Toml.parse? text = some v)
    (h' : Toml.parse? text' = some v') (hv : v.IsManifest) (hv' : v'.IsManifest)
    (hsame : Option.Rel Value.Same v.settings? v'.settings?) :
    ofManifest? text = ofManifest? text' := by
  rw [ofManifest?_eq h hv, ofManifest?_eq h' hv']
  generalize v.settings? = found at hsame
  generalize v'.settings? = found' at hsame
  cases hsame with
  | some hw => exact congrArg (Option.map some) (ofValue_congr hw)
  | none => rfl

/-! ## 5. Which tables are accepted -/

/-- The types that fields have. -/
inductive FieldType where
  | text
  | texts
  | truth
  deriving DecidableEq

/-- A value is of a type. -/
inductive FieldType.Admits : FieldType → Value → Prop where
  | text (s : String) : Admits .text (.string s)
  | texts (ss : List String) : Admits .texts (.array (ss.map .string))
  | truth (b : Bool) : Admits .truth (.boolean b)

/-- The keys of the settings, each with the type of its field. -/
def fields : List (String × FieldType) :=
  [("scan-paths", .texts), ("output-file", .text), ("crate-name", .text), ("runtime-crate", .text),
    ("marker", .text), ("diagnostics", .truth)]

theorem string?_eq_some_iff {v : Value} {s : String} : v.string? = some s ↔ v = .string s := by
  cases v <;> simp [Value.string?]

theorem isSome_string?_iff {v : Value} : v.string?.isSome = true ↔ FieldType.text.Admits v := by
  constructor
  · intro h
    obtain ⟨s, hs⟩ := Option.isSome_iff_exists.mp h
    rw [string?_eq_some_iff.mp hs]
    exact .text s
  · rintro ⟨⟩
    rfl

theorem isSome_boolean?_iff {v : Value} : v.boolean?.isSome = true ↔ FieldType.truth.Admits v := by
  constructor
  · cases v with
    | boolean b => exact fun _ => .truth b
    | _ => nofun
  · rintro ⟨⟩
    rfl

theorem mapM_string?_eq_some_iff {vs : List Value} {ss : List String} :
    vs.mapM Value.string? = some ss ↔ vs = ss.map .string := by
  induction vs generalizing ss with
  | nil =>
    rw [List.mapM_nil]
    cases ss <;> simp
  | cons v vs ih =>
    rw [List.mapM_cons, Option.bind_eq_bind, Option.bind_eq_some_iff]
    constructor
    · rintro ⟨s, hs, h⟩
      obtain ⟨rest, hrest, h⟩ := Option.bind_eq_some_iff.mp h
      obtain rfl := Option.some.inj h
      rw [string?_eq_some_iff.mp hs, ih.mp hrest, List.map_cons]
    · intro h
      cases ss with
      | nil => cases h
      | cons s ss =>
        obtain ⟨rfl, rfl⟩ := List.cons.inj h
        exact ⟨s, rfl, Option.bind_eq_some_iff.mpr ⟨ss, ih.mpr rfl, rfl⟩⟩

theorem isSome_strings?_iff {v : Value} : v.strings?.isSome = true ↔ FieldType.texts.Admits v := by
  constructor
  · cases v with
    | array vs =>
      intro h
      obtain ⟨ss, hss⟩ := Option.isSome_iff_exists.mp h
      rw [mapM_string?_eq_some_iff.mp hss]
      exact .texts ss
    | _ => nofun
  · rintro ⟨⟩
    exact Option.isSome_iff_exists.mpr ⟨_, mapM_string?_eq_some_iff.mpr rfl⟩

/-- A field can be read if what stands under its key is of its type. -/
theorem isSome_fieldOr_iff {α : Type} {key : String} {read : Value → Option α} {type : FieldType}
    (standard : α) (hread : ∀ v, (read v).isSome = true ↔ type.Admits v) :
    (fieldOr es key read standard).isSome = true ↔
      ∀ v, es.lookup key = some v → type.Admits v := by
  unfold fieldOr
  cases es.lookup key with
  | none => simp
  | some v => simp [hread]

theorem isSome_bind_iff {α β : Type} {x : Option α} {f : α → Option β} {p : Prop}
    (h : ∀ a, (f a).isSome = true ↔ p) : (x.bind f).isSome = true ↔ x.isSome = true ∧ p := by
  cases x with
  | none => simp
  | some a => simp [h]

/-- The fields are read if the keys are those of fields, and each field can be read. -/
theorem isSome_ofEntries_iff_forall : (ofEntries es).isSome = true ↔
    (es.all fun e => keys.contains e.1) = true ∧
      ∀ f ∈ fields, ∀ v, es.lookup f.1 = some v → f.2.Admits v := by
  have hscan (v : Value) : (v.strings?.map fun ss => ss.map FsPath.mk).isSome = true ↔
      FieldType.texts.Admits v := by
    rw [Option.isSome_map, isSome_strings?_iff]
  have houtput (v : Value) : (v.string?.map fun s => some (FsPath.mk s)).isSome = true ↔
      FieldType.text.Admits v := by
    rw [Option.isSome_map, isSome_string?_iff]
  have htext (key standard : String) : (fieldOr es key Value.string? standard).isSome = true ↔ _ :=
    isSome_fieldOr_iff standard fun v => isSome_string?_iff
  have hguard (b : Bool) : (guard (b = true) : Option Unit).isSome = true ↔ b = true := by
    cases b with
    | true => exact Iff.rfl
    | false => exact Iff.rfl
  unfold ofEntries fields
  simp only [List.forall_mem_cons, List.not_mem_nil, false_implies, implies_true, and_true]
  rw [← isSome_fieldOr_iff [] hscan, ← isSome_fieldOr_iff none houtput,
    ← htext "crate-name" standard.crateName, ← htext "runtime-crate" standard.runtimeCrate,
    ← htext "marker" standard.marker,
    ← isSome_fieldOr_iff standard.diagnostics fun v => isSome_boolean?_iff]
  refine (isSome_bind_iff fun _ => isSome_bind_iff fun _ => isSome_bind_iff fun _ =>
    isSome_bind_iff fun _ => isSome_bind_iff fun _ => isSome_bind_iff fun _ => ?_).trans
    (and_congr (hguard _) Iff.rfl)
  cases fieldOr es "diagnostics" Value.boolean? standard.diagnostics with
  | none => exact Iff.rfl
  | some _ => exact Iff.rfl

/-- A table of settings is accepted if and only if each of its keys is that of a field, and what
stands there is of the field's type. -/
theorem isSome_ofEntries_iff : (ofEntries es).isSome = true ↔
    ∀ key v, es.lookup key = some v → ∃ type, (key, type) ∈ fields ∧ type.Admits v := by
  rw [isSome_ofEntries_iff_forall, all_keys_iff]
  have hone : ∀ f ∈ fields, ∀ g ∈ fields, f.1 = g.1 → f.2 = g.2 := by decide
  constructor
  · rintro ⟨hkeys, hfields⟩ key v hv
    have hkey : key ∈ fields.map Prod.fst := hkeys key v hv
    obtain ⟨f, hf, rfl⟩ := List.mem_map.mp hkey
    exact ⟨f.2, hf, hfields f hf v hv⟩
  · intro h
    refine ⟨fun key v hv => ?_, fun f hf v hv => ?_⟩
    · obtain ⟨type, htype, -⟩ := h key v hv
      exact List.mem_map_of_mem (f := Prod.fst) htype
    · obtain ⟨type, htype, hadmits⟩ := h f.1 v hv
      rw [hone f hf _ htype rfl]
      exact hadmits

/-! ## 6. Fields that are set to their defaults -/

/-- The value that is written for a field. A field without a value is not written. -/
def value? (s : Settings) : String → Option Value
  | "scan-paths" => some (.array (s.scanPaths.map fun p => .string p.text))
  | "output-file" => s.outputFile.map fun p => .string p.text
  | "crate-name" => some (.string s.crateName)
  | "runtime-crate" => some (.string s.runtimeCrate)
  | "marker" => some (.string s.marker)
  | "diagnostics" => some (.boolean s.diagnostics)
  | _ => none

/-- What is written for a field is of the field's type. -/
theorem exists_type_of_value? {s : Settings} {key : String} {v : Value}
    (h : s.value? key = some v) : ∃ type, (key, type) ∈ fields ∧ type.Admits v := by
  unfold value? at h
  split at h
  · obtain rfl := Option.some.inj h
    refine ⟨.texts, by decide, ?_⟩
    have hstrings : (s.scanPaths.map fun p => Value.string p.text) =
        (s.scanPaths.map (·.text)).map .string := by rw [List.map_map]; rfl
    rw [hstrings]
    exact .texts _
  · obtain ⟨p, -, rfl⟩ := Option.map_eq_some_iff.mp h
    exact ⟨.text, by decide, .text p.text⟩
  · obtain rfl := Option.some.inj h
    exact ⟨.text, by decide, .text s.crateName⟩
  · obtain rfl := Option.some.inj h
    exact ⟨.text, by decide, .text s.runtimeCrate⟩
  · obtain rfl := Option.some.inj h
    exact ⟨.text, by decide, .text s.marker⟩
  · obtain rfl := Option.some.inj h
    exact ⟨.truth, by decide, .truth s.diagnostics⟩
  · cases h

theorem lookup_filter_ne (key k : String) : (es.filter (·.1 != key)).lookup k =
    if k = key then none else es.lookup k := by
  induction es with
  | nil => simp
  | cons e es ih =>
    rw [List.filter_cons, List.lookup_cons]
    by_cases he : e.1 = key
    · -- The entry goes, and it is not the one that is looked for under another key.
      rw [if_neg (by simp [he]), ih]
      split
      · rfl
      · next hk =>
        have hne : (k == e.1) = false := beq_false_of_ne (he ▸ hk)
        rw [hne]
    · rw [if_pos (by simp [he]), List.lookup_cons, ih]
      split
      · next hk => rw [if_neg (by rw [beq_iff_eq.mp hk]; exact he)]
      · rfl

/-- A field that is read to its default from a key is read to it without the key. -/
theorem fieldOr_without {α : Type} {k key : String} {read : Value → Option α} {default : α}
    {w : Value} (hdefault : ∀ v, standard.value? k = some v → read v = some default)
    (hw : standard.value? key = some w) (hkey : es.lookup key = some w) :
    fieldOr (es.filter (·.1 != key)) k read default = fieldOr es k read default := by
  unfold fieldOr
  rw [lookup_filter_ne]
  by_cases hk : k = key
  · subst hk
    rw [if_pos rfl, hkey]
    exact (hdefault w hw).symm
  · rw [if_neg hk]

/-- A key with the default of its field can be deleted. -/
theorem ofEntries_without {key : String} {w : Value} (hw : standard.value? key = some w)
    (hkey : es.lookup key = some w) : ofEntries (es.filter (·.1 != key)) = ofEntries es := by
  -- The key is one of the known ones, so the others decide whether all are.
  have hkeys : ((es.filter (·.1 != key)).all fun e => keys.contains e.1) =
      es.all fun e => keys.contains e.1 := by
    rw [Bool.eq_iff_iff, all_keys_iff, all_keys_iff]
    constructor
    · intro h k v hv
      by_cases hk : k = key
      · obtain ⟨type, htype, -⟩ := exists_type_of_value? hw
        exact hk ▸ List.mem_map_of_mem (f := Prod.fst) htype
      · exact h k v (by rw [lookup_filter_ne, if_neg hk, hv])
    · intro h k v hv
      rw [lookup_filter_ne] at hv
      split at hv
      · cases hv
      · exact h k v hv
  unfold ofEntries
  rw [hkeys, fieldOr_without (k := "scan-paths") (by rintro _ ⟨⟩; rfl) hw hkey,
    fieldOr_without (k := "output-file") nofun hw hkey,
    fieldOr_without (k := "crate-name") (by rintro _ ⟨⟩; rfl) hw hkey,
    fieldOr_without (k := "runtime-crate") (by rintro _ ⟨⟩; rfl) hw hkey,
    fieldOr_without (k := "marker") (by rintro _ ⟨⟩; rfl) hw hkey,
    fieldOr_without (k := "diagnostics") (by rintro _ ⟨⟩; rfl) hw hkey]

/-! ## 7. Manifests -/

/-- A marker that is set to its default, among other things. -/
def longManifest : String :=
  "[package]\nname = \"app\"\n[package.metadata.pgenum]\nmarker = \"pgenum::pg_enum\"\n" ++
    "diagnostics = true\n"

/-- The same settings without the marker, among other things. -/
def shortManifest : String :=
  "[package.metadata.pgenum]\ndiagnostics = true\n[dependencies]\nregex = \"1\"\n"

theorem parse?_longManifest : Toml.parse? longManifest = some (.table
    [("package", .table [("name", .string "app"), ("metadata", .table [("pgenum", .table
      [("marker", .string "pgenum::pg_enum"), ("diagnostics", .boolean true)])])])]) := by
  cbv

theorem parse?_shortManifest : Toml.parse? shortManifest = some (.table
    [("package", .table [("metadata", .table [("pgenum", .table
      [("diagnostics", .boolean true)])])]),
      ("dependencies", .table [("regex", .string "1")])]) := by
  cbv

/-- **The settings stand by themselves, and no slip of the pen goes unnoticed.** Of a manifest that
has tables, or nothing, on the way to the settings, only the value in their place matters: with the
same value there, or without one, another such manifest gives the same settings. A table is accepted
there if and only if each of its keys is that of a field and what stands there is of the field's
type. And without a key that has the default of its field the settings are the same. -/
theorem ofManifest?_isolated {text : String} {v : Value} (h : Toml.parse? text = some v)
    (hv : v.IsManifest) :
    (∀ text' v', Toml.parse? text' = some v' → v'.IsManifest →
      Option.Rel Value.Same v.settings? v'.settings? → ofManifest? text' = ofManifest? text) ∧
    ∀ entries, v.settings? = some (.table entries) →
      ((ofManifest? text).isSome = true ↔
        ∀ key w, entries.lookup key = some w → ∃ type, (key, type) ∈ fields ∧ type.Admits w) ∧
      ∀ key w, entries.lookup key = some w → standard.value? key = some w →
        ∀ text' v' w', Toml.parse? text' = some v' → v'.IsManifest → v'.settings? = some w' →
          Value.Same w' (.table (entries.filter (·.1 != key))) →
          ofManifest? text' = ofManifest? text := by
  refine ⟨fun text' v' h' hv' hsame => (ofManifest?_congr h h' hv hv' hsame).symm,
    fun entries hentries => ⟨?_, ?_⟩⟩
  · rw [ofManifest?_eq h hv, hentries, ← isSome_ofEntries_iff]
    show ((ofEntries entries).map some).isSome = true ↔ _
    rw [Option.isSome_map]
  · intro key w hkey hw text' v' w' h' hv' hsettings hsame
    rw [ofManifest?_eq h hv, ofManifest?_eq h' hv', hentries, hsettings]
    show (ofValue w').map some = (ofEntries entries).map some
    rw [ofValue_congr hsame]
    exact congrArg (Option.map some) (ofEntries_without hw hkey)

theorem ofManifest?_isolated_marker :
    ∃ v v' : Value, Toml.parse? longManifest = some v ∧ Toml.parse? shortManifest = some v' ∧
      v.IsManifest ∧ v'.IsManifest ∧
      (ofManifest? longManifest).isSome = true ∧
      ofManifest? shortManifest = ofManifest? longManifest := by
  refine ⟨_, _, parse?_longManifest, parse?_shortManifest, Value.isManifest_of_lookup rfl rfl,
    Value.isManifest_of_lookup rfl rfl, ?_⟩
  obtain ⟨haccepted, hdeleted⟩ := (ofManifest?_isolated parse?_longManifest
    (Value.isManifest_of_lookup rfl rfl)).2 _ rfl
  refine ⟨haccepted.mpr fun key w hw => ?_, hdeleted "marker" _ rfl rfl shortManifest _ _
    parse?_shortManifest (Value.isManifest_of_lookup rfl rfl) rfl (Value.Same.refl _)⟩
  rcases List.mem_cons.mp (Value.mem_of_lookup_eq_some hw) with heq | hmem
  · obtain ⟨rfl, rfl⟩ := Prod.mk.inj heq
    exact ⟨.text, by decide, .text _⟩
  · obtain ⟨rfl, rfl⟩ := Prod.mk.inj (List.mem_singleton.mp hmem)
    exact ⟨.truth, by decide, .truth true⟩

end Settings

end EnumCatalog
