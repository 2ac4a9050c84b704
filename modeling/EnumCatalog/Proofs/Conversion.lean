import EnumCatalog.Registration
import Mathlib.Data.List.Nodup
import Mathlib.Data.List.Induction

/-!
# From values to labels and back

A mapper is reached from the empty one by mapping types one after the other. Of all calls only the
last one on a type counts for that type (`Mapper.get?_mapEach`), so what the mapper makes of a value
can be read off that call: a value becomes the label of its member, and a label becomes the value of
the *first* member that has it (`find?_label`). The two undo each other for all values exactly if no
two members share a label.

`EnumType.IsFaithful` says what an enum has to promise for this: its values and the names of its
members correspond one to one.
-/

set_option autoImplicit false

namespace EnumCatalog

/-! ## 1. Positions -/

section Positions

variable {α β : Type}

/-- What stands at the place of a member of the list in the image of the list. -/
theorem bind_idxOf?_map [DecidableEq α] (f : α → β) {l : List α} {a : α} (h : a ∈ l) :
    (l.idxOf? a).bind ((l.map f)[·]?) = some (f a) := by
  induction l with
  | nil => cases h
  | cons b l ih =>
    by_cases hb : b = a
    · subst hb
      simp [List.idxOf?_cons]
    · have ha : a ∈ l := (List.mem_cons.mp h).resolve_left fun e => hb e.symm
      have hbeq : (b == a) = false := beq_false_of_ne hb
      rw [List.idxOf?_cons, hbeq]
      simpa [Option.bind_map, Function.comp_def] using ih ha

/-- What stands in the list where its image first has a value. -/
theorem find?_label [DecidableEq β] (f : α → β) (l : List α) (b : β) :
    ((l.map f).idxOf? b).bind (l[·]?) = l.find? (f · == b) := by
  induction l with
  | nil => rfl
  | cons a l ih =>
    rw [List.map_cons, List.idxOf?_cons, List.find?_cons]
    cases hb : f a == b with
    | true => rfl
    | false => simpa [Option.bind_map, Function.comp_def] using ih

end Positions

/-! ## 2. Enums whose values and names correspond -/

namespace EnumType

/-- The values of the enum and the names of its members correspond one to one. -/
structure IsFaithful (E : EnumType) : Prop where
  nodup_variants : E.variants.Nodup
  variantName_mem : ∀ v, E.variantName v ∈ E.variants
  ofVariant?_variantName : ∀ v, E.ofVariant? (E.variantName v) = some v
  exists_ofVariant? : ∀ s ∈ E.variants, ∃ v, E.ofVariant? s = some v ∧ E.variantName v = s

theorem IsFaithful.variantName_injective {E : EnumType} (hE : E.IsFaithful) {v w : E.Value}
    (h : E.variantName v = E.variantName w) : v = w := by
  have hv := hE.ofVariant?_variantName v
  rw [h, hE.ofVariant?_variantName w] at hv
  exact (Option.some.inj hv).symm

theorem isFaithful_ofVariants {variants : List String} (h : variants.Nodup)
    (identity name : String) (aliasName : Option String) :
    (ofVariants identity name variants aliasName).IsFaithful where
  nodup_variants := h
  variantName_mem v := v.property
  ofVariant?_variantName v := by
    exact dif_pos v.property
  exists_ofVariant? s hs := by
    exact ⟨⟨s, hs⟩, dif_pos hs, rfl⟩

end EnumType

/-! ## 3. What a run leaves in the mapper -/

namespace Mapper

/-- A call that maps an enum type, with the convention that it is given. -/
abbrev Call := EnumType × Option Naming

/-- Makes calls one after the other. -/
def mapEach (m : Mapper) (calls : List Call) : Mapper :=
  calls.foldl (fun m c => m.mapEnum c.1 c.2) m

theorem mapAll_eq_mapEach (m : Mapper) (enums : List EnumType) (naming : Option Naming) :
    m.mapAll enums naming = m.mapEach (enums.map (·, naming)) := by
  rw [mapAll, mapEach, List.foldl_map]

@[simp] theorem get?_empty (E : EnumType) : empty.get? E = none := rfl

@[simp] theorem get?_mapEnum (m : Mapper) (E F : EnumType) (naming : Option Naming) :
    (m.mapEnum F naming).get? E =
      if E.identity = F.identity then some (mappingOf F naming) else m.get? E :=
  Ordered.get?_put m.table F.identity E.identity (mappingOf F naming)

/-- The last of some calls that is on a type. -/
def lastCall? (calls : List Call) (E : EnumType) : Option Call :=
  (calls.filter fun c => E.identity = c.1.identity).getLast?

theorem lastCall?_eq_none_iff {calls : List Call} {E : EnumType} :
    lastCall? calls E = none ↔ ∀ c ∈ calls, E.identity ≠ c.1.identity := by
  simp [lastCall?]

theorem lastCall?_append_cons {E : EnumType} {naming : Option Naming} {before after : List Call}
    (hafter : ∀ c ∈ after, E.identity ≠ c.1.identity) :
    lastCall? (before ++ (E, naming) :: after) E = some (E, naming) := by
  have hnil : after.filter (fun c => E.identity = c.1.identity) = [] := by
    simpa [List.filter_eq_nil_iff] using hafter
  simp [lastCall?, List.filter_append, hnil]

/-- Only the last call on a type counts. -/
theorem get?_mapEach (m : Mapper) (calls : List Call) (E : EnumType) :
    (m.mapEach calls).get? E =
      ((lastCall? calls E).map fun c => mappingOf c.1 c.2).or (m.get? E) := by
  induction calls using List.reverseRecOn with
  | nil => rfl
  | append_singleton calls c ih =>
    have hstep : m.mapEach (calls ++ [c]) = (m.mapEach calls).mapEnum c.1 c.2 := by
      simp [mapEach, List.foldl_append]
    rw [hstep, get?_mapEnum]
    by_cases h : E.identity = c.1.identity
    · simp [h, lastCall?, List.filter_append]
    · rw [if_neg h, ih]
      simp [h, lastCall?, List.filter_append]

/-! ## 4. Converting -/

variable {m : Mapper} {E : EnumType} {naming : Option Naming}

/-- The label of a value's member under a convention. -/
def labelOf (E : EnumType) (naming : Option Naming) (v : E.Value) : String :=
  (Naming.orDefault naming).memberName (E.variantName v)

theorem labelOf_mem (hE : E.IsFaithful) (naming : Option Naming) (v : E.Value) :
    labelOf E naming v ∈ (mappingOf E naming).labels :=
  List.mem_map_of_mem (hE.variantName_mem v)

theorem labels_mappingOf (E : EnumType) (naming : Option Naming) :
    (mappingOf E naming).labels = E.variants.map (Naming.orDefault naming).memberName := rfl

theorem encode_of_get? (hE : E.IsFaithful) (hm : m.get? E = some (mappingOf E naming))
    (v : E.Value) : m.encode E v = .ok (labelOf E naming v) := by
  have hfind := bind_idxOf?_map (Naming.orDefault naming).memberName (hE.variantName_mem v)
  unfold encode
  rw [hm]
  simp only [labels_mappingOf]
  rw [hfind]
  rfl

/-- A label is decoded to the value of the first member that has it. -/
theorem decode_eq_ok_iff (hE : E.IsFaithful) (hm : m.get? E = some (mappingOf E naming))
    {l : String} {v : E.Value} :
    m.decode E l = .ok v ↔
      E.variants.find? ((Naming.orDefault naming).memberName · == l) = some (E.variantName v) := by
  unfold decode
  rw [hm]
  simp only [labels_mappingOf]
  rw [find?_label]
  cases hs : E.variants.find? ((Naming.orDefault naming).memberName · == l) with
  | none => simp
  | some s =>
    obtain ⟨w, hw, hname⟩ := hE.exists_ofVariant? s (List.mem_of_find?_eq_some hs)
    simp only [Option.bind_some, hw, Except.ok.injEq, Option.some.injEq]
    constructor
    · rintro rfl
      exact hname.symm
    · intro h
      exact hE.variantName_injective (hname.trans h)

theorem exists_decode_iff (hE : E.IsFaithful) (hm : m.get? E = some (mappingOf E naming))
    {l : String} : (∃ v, m.decode E l = .ok v) ↔ l ∈ (mappingOf E naming).labels := by
  simp only [decode_eq_ok_iff hE hm, labels_mappingOf, List.mem_map]
  constructor
  · rintro ⟨v, hv⟩
    exact ⟨_, List.mem_of_find?_eq_some hv, by simpa using List.find?_some hv⟩
  · rintro ⟨s, hs, rfl⟩
    obtain ⟨s', hs'⟩ := Option.isSome_iff_exists.mp
      (List.find?_isSome.mpr ⟨s, hs, by simp⟩ :
        (E.variants.find? ((Naming.orDefault naming).memberName · ==
          (Naming.orDefault naming).memberName s)).isSome)
    obtain ⟨v, -, hv⟩ := hE.exists_ofVariant? s' (List.mem_of_find?_eq_some hs')
    exact ⟨v, hv ▸ hs'⟩

/-- Encoding a value that a label was decoded to gives the label. -/
theorem encode_of_decode (hE : E.IsFaithful) (hm : m.get? E = some (mappingOf E naming))
    {l : String} {v : E.Value} (h : m.decode E l = .ok v) : m.encode E v = .ok l := by
  have hl := List.find?_some ((decode_eq_ok_iff hE hm).mp h)
  rw [encode_of_get? hE hm, labelOf]
  exact congrArg Except.ok (by simpa using hl)

/-- No label is given twice exactly if decoding undoes encoding. -/
theorem decode_labelOf_iff (hE : E.IsFaithful) (hm : m.get? E = some (mappingOf E naming)) :
    (∀ v, m.decode E (labelOf E naming v) = .ok v) ↔ (mappingOf E naming).labels.Nodup := by
  constructor
  · intro h
    refine List.Nodup.map_on ?_ hE.nodup_variants
    intro s hs s' hs' heq
    obtain ⟨v, -, rfl⟩ := hE.exists_ofVariant? s hs
    obtain ⟨w, -, rfl⟩ := hE.exists_ofVariant? s' hs'
    have hv := h v
    rw [show labelOf E naming v = labelOf E naming w from heq, h w] at hv
    exact congrArg E.variantName (Except.ok.inj hv).symm
  · intro h v
    obtain ⟨w, hw⟩ := (exists_decode_iff hE hm).mpr (labelOf_mem hE naming v)
    have hlabel : labelOf E naming w = labelOf E naming v := by
      have hback := encode_of_decode hE hm hw
      rw [encode_of_get? hE hm] at hback
      exact Except.ok.inj hback
    have hname := List.inj_on_of_nodup_map h (hE.variantName_mem w) (hE.variantName_mem v) hlabel
    rw [hw, hE.variantName_injective hname]

/-! ## 5. Runs -/

/-- What a mapper makes of the values and labels of a type after any run of calls. As long as the
type has not been mapped there is no answer. Once it has, the last call on it decides: a value
becomes the label of its member, exactly the labels of the mapping are decoded, each to the value
of the first member that has it, and this undoes encoding for all values exactly if no two members
share a label. -/
theorem encode_decode_mapEach {E : EnumType} (hE : E.IsFaithful) :
    (∀ calls : List Call, (∀ c ∈ calls, E.identity ≠ c.1.identity) →
      (∀ v, (empty.mapEach calls).encode E v = .error (.unmapped E.name)) ∧
      ∀ l, (empty.mapEach calls).decode E l = .error (.unmapped E.name)) ∧
    ∀ (before after : List Call) (naming : Option Naming),
      (∀ c ∈ after, E.identity ≠ c.1.identity) →
      let m := empty.mapEach (before ++ (E, naming) :: after)
      let member := (Naming.orDefault naming).memberName
      (∀ v, m.encode E v = .ok (member (E.variantName v))) ∧
      (∀ l, (∃ v, m.decode E l = .ok v) ↔ ∃ mapping, m.get? E = some mapping ∧ l ∈ mapping.labels) ∧
      (∀ l v, m.decode E l = .ok v → m.encode E v = .ok l) ∧
      ((∀ v, m.encode E v >>= m.decode E = .ok v) ↔ (E.variants.map member).Nodup) ∧
      ∀ v, ∃ w, m.encode E v >>= m.decode E = .ok w ∧
        E.variants.find? (member · == member (E.variantName v)) = some (E.variantName w) := by
  constructor
  · intro calls hcalls
    have hm : (empty.mapEach calls).get? E = none := by
      rw [get?_mapEach, lastCall?_eq_none_iff.mpr hcalls]
      rfl
    exact ⟨fun v => by rw [encode, hm], fun l => by rw [decode, hm]⟩
  · intro before after naming hafter m member
    have hm : m.get? E = some (mappingOf E naming) := by
      rw [get?_mapEach, lastCall?_append_cons hafter]
      rfl
    have hthrough (v : E.Value) :
        m.encode E v >>= m.decode E = m.decode E (labelOf E naming v) := by
      rw [encode_of_get? hE hm]
      rfl
    refine ⟨encode_of_get? hE hm, ?_, fun l v => encode_of_decode hE hm, ?_, ?_⟩
    · intro l
      rw [exists_decode_iff hE hm, hm]
      simp
    · simp only [hthrough]
      exact decode_labelOf_iff hE hm
    · intro v
      obtain ⟨w, hw⟩ := (exists_decode_iff hE hm).mpr (labelOf_mem hE naming v)
      exact ⟨w, (hthrough v).trans hw, (decode_eq_ok_iff hE hm).mp hw⟩

/-- An enum two of whose members are told apart by the case of their letters alone. -/
def server : EnumType := .ofVariants "web::Server" "Server" ["HttpServer", "HTTPServer"] none

/-- The two members of `server` had labels of their own under the first convention. Under the one
that is used last they share a label, and both come back as the first of them. -/
theorem encode_decode_mapEach_server :
    server.IsFaithful ∧ server.identity ≠ PetShop.animals.identity ∧
      let m := empty.mapEach
        [(server, some .verbatim), (server, none), (PetShop.animals, some .verbatim)]
      m.encode server ⟨"HTTPServer", by decide⟩ = .ok "http_server" ∧
      m.decode server "http_server" = .ok ⟨"HttpServer", by decide⟩ ∧
      ¬ ∀ v, m.encode server v >>= m.decode server = .ok v := by
  have hE : server.IsFaithful := EnumType.isFaithful_ofVariants (by decide) _ _ _
  have hne : server.identity ≠ PetShop.animals.identity := by decide
  obtain ⟨hencode, -, -, hiff, hthrough⟩ :=
    (encode_decode_mapEach hE).2 [(server, some .verbatim)] [(PetShop.animals, some .verbatim)]
      none (by simpa using hne)
  have hsecond : Text.snakeCase "HTTPServer" = "http_server" := by decide +kernel
  have hfirst : Text.snakeCase "HttpServer" = "http_server" := by decide +kernel
  have hlabel := hencode ⟨"HTTPServer", by decide⟩
  rw [show (Naming.orDefault none).memberName (server.variantName ⟨"HTTPServer", by decide⟩) =
    "http_server" from hsecond] at hlabel
  -- The label comes back as the first member that has it.
  obtain ⟨w, hw, hfind⟩ := hthrough ⟨"HTTPServer", by decide⟩
  have hname : server.variantName w = "HttpServer" := by
    have hhead : server.variants.find? ((Naming.orDefault none).memberName · ==
        (Naming.orDefault none).memberName "HTTPServer") = some "HttpServer" :=
      List.find?_cons_of_pos (by simpa [Naming.orDefault, Naming.snakeCase] using hfirst.trans hsecond.symm)
    exact Option.some.inj (hfind.symm.trans hhead)
  have hvalue : w = ⟨"HttpServer", by decide⟩ := Subtype.ext hname
  subst hvalue
  rw [hlabel] at hw
  refine ⟨hE, hne, hlabel, hw, fun hall => ?_⟩
  have hnodup := hiff.mp hall
  exact absurd (List.inj_on_of_nodup_map hnodup (by decide : "HttpServer" ∈ server.variants)
    (by decide : "HTTPServer" ∈ server.variants) (hfirst.trans hsecond.symm)) (by decide)

end Mapper

end EnumCatalog
