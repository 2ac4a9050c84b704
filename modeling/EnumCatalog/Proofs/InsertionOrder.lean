import EnumCatalog.Proofs.Conversion

/-!
# Registries in the order of first registration

However much has been registered, a registry holds each key once, in the place of its *first*
registration and with what its *last* registration came to. For a table this follows from what one
`put` does to the keys and to the look-ups (`Ordered.keys_putAll_empty`, `Ordered.get?_putAll`), and
two tables that agree on both are equal (`Ordered.ext_get?`). So registering everything a second time
changes nothing (`Ordered.putAll_again`).

The mapper and the model are such tables. The mapper's keys are the identities of enum types. The
model's are read off the declarations themselves, so there the entries need not be looked at.
-/

set_option autoImplicit false

namespace EnumCatalog

/-! ## 1. Tables -/

theorem eraseDups_concat {κ : Type} [DecidableEq κ] [BEq κ] [LawfulBEq κ] (ks : List κ) (k : κ) :
    (ks ++ [k]).eraseDups = if k ∈ ks then ks.eraseDups else ks.eraseDups ++ [k] := by
  rw [List.eraseDups_append]
  by_cases h : k ∈ ks
  · simp [List.removeAll, h]
  · simp [List.removeAll, h, List.eraseDups_cons]

namespace Ordered

section

variable {κ α : Type} {k : κ} {a : α}

/-- Of some entries, this is the last with its key. -/
def IsLast (es : List (κ × α)) (k : κ) (a : α) : Prop :=
  ∃ earlier later, es = earlier ++ (k, a) :: later ∧ ∀ e ∈ later, e.1 ≠ k

/-- The last with its key, of entries that are made from something. -/
theorem isLast_map_iff {γ : Type _} (f : γ → κ × α) {cs : List γ} :
    IsLast (cs.map f) k a ↔ ∃ earlier c later, cs = earlier ++ c :: later ∧
      (∀ c' ∈ later, (f c').1 ≠ (f c).1) ∧ f c = (k, a) := by
  constructor
  · rintro ⟨earlier, later, hcs, hlater⟩
    obtain ⟨before, rest, rfl, rfl, hrest⟩ := List.map_eq_append_iff.mp hcs
    obtain ⟨c, after, rfl, hc, rfl⟩ := List.map_eq_cons_iff.mp hrest
    refine ⟨before, c, after, rfl, fun c' hc' => ?_, hc⟩
    rw [hc]
    exact hlater (f c') (List.mem_map_of_mem hc')
  · rintro ⟨earlier, c, later, rfl, hlater, hc⟩
    refine ⟨earlier.map f, later.map f, ?_, fun e he => ?_⟩
    · rw [← hc, List.map_append, List.map_cons]
    · obtain ⟨c', hc', rfl⟩ := List.mem_map.mp he
      rw [hc] at hlater
      exact hlater c' hc'

end

variable {κ α : Type} [DecidableEq κ] {m m' : Ordered κ α} {es : List (κ × α)} {k : κ} {a : α}

/-- The keys in the order in which they were first put. -/
def keys (m : Ordered κ α) : List κ := m.entries.map Prod.fst

/-- Puts entries one after the other. -/
def putAll (m : Ordered κ α) (es : List (κ × α)) : Ordered κ α :=
  es.foldl (fun m e => m.put e.1 e.2) m

theorem putAll_concat (m : Ordered κ α) (es : List (κ × α)) (e : κ × α) :
    m.putAll (es ++ [e]) = (m.putAll es).put e.1 e.2 := by
  rw [putAll, List.foldl_append]
  rfl

theorem putAll_append (m : Ordered κ α) (es es' : List (κ × α)) :
    m.putAll (es ++ es') = (m.putAll es).putAll es' := List.foldl_append

theorem keys_put (m : Ordered κ α) (k : κ) (a : α) :
    (m.put k a).keys = if k ∈ m.keys then m.keys else m.keys ++ [k] :=
  keys_putEntry k a m.entries

theorem mem_entries_iff : (k, a) ∈ m.entries ↔ m.get? k = some a := by
  rw [get?, List.lookup_eq_some_iff, List.mem_iff_append]
  refine exists₂_congr fun before after => ⟨fun h => ⟨h, fun e he => ?_⟩, And.left⟩
  -- The key does not stand twice.
  have hnodup := m.nodup_keys
  rw [h, List.map_append, List.map_cons, List.nodup_append] at hnodup
  have hne := hnodup.2.2 e.1 (List.mem_map_of_mem he) k List.mem_cons_self
  exact bne_iff_ne.mpr hne.symm

theorem mem_keys_iff : k ∈ m.keys ↔ ∃ a, m.get? k = some a := by
  simp only [keys, List.mem_map, Prod.exists, exists_and_right, exists_eq_right, mem_entries_iff]

/-- A table is determined by the order of its keys and by what each key has. -/
theorem ext_get? (hkeys : m.keys = m'.keys) (hget : ∀ k, m.get? k = m'.get? k) : m = m' := by
  have hentries (m : Ordered κ α) :
      m.entries.map some = m.keys.map fun k => (m.get? k).map (k, ·) := by
    rw [keys, List.map_map]
    refine List.map_congr_left fun e he => ?_
    rw [Function.comp_apply, mem_entries_iff.mp he]
    rfl
  have hsame : m.entries = m'.entries := by
    refine List.map_injective_iff.mpr (fun _ _ => Option.some.inj) ?_
    rw [hentries, hentries, hkeys]
    simp only [hget]
  cases m
  cases m'
  cases hsame
  rfl

/-! ## 2. What is left of many entries -/

/-- Only the last entry with a key counts. -/
theorem get?_putAll (m : Ordered κ α) (es : List (κ × α)) (k : κ) :
    (m.putAll es).get? k = (es.reverse.lookup k).or (m.get? k) := by
  induction es using List.reverseRecOn with
  | nil => rfl
  | append_singleton es e ih =>
    rw [putAll_concat, get?_put, ih, List.reverse_concat, List.lookup_cons]
    by_cases h : k = e.1
    · rw [if_pos h, beq_iff_eq.mpr h]
      rfl
    · rw [if_neg h, beq_false_of_ne h]

theorem lookup_reverse_eq_some_iff : es.reverse.lookup k = some a ↔ IsLast es k a := by
  rw [List.lookup_eq_some_iff]
  constructor
  · rintro ⟨later, earlier, hes, hlater⟩
    refine ⟨earlier.reverse, later.reverse, ?_, fun e he heq => ?_⟩
    · rw [← List.reverse_reverse es, hes, List.reverse_append, List.reverse_cons, List.append_assoc]
      rfl
    · exact bne_iff_ne.mp (hlater e (List.mem_reverse.mp he)) heq.symm
  · rintro ⟨earlier, later, rfl, hlater⟩
    refine ⟨later.reverse, earlier.reverse, ?_, fun e he => ?_⟩
    · rw [List.reverse_append, List.reverse_cons, List.append_assoc]
      rfl
    · exact bne_iff_ne.mpr fun heq => hlater e (List.mem_reverse.mp he) heq.symm

theorem mem_entries_putAll_empty : (k, a) ∈ (empty.putAll es).entries ↔ IsLast es k a := by
  rw [mem_entries_iff, get?_putAll, get?_empty, Option.or_none, lookup_reverse_eq_some_iff]

/-- Each key stands where it was put first. -/
theorem keys_putAll_empty [BEq κ] [LawfulBEq κ] (es : List (κ × α)) :
    (empty.putAll es).keys = (es.map Prod.fst).eraseDups := by
  induction es using List.reverseRecOn with
  | nil => rfl
  | append_singleton es e ih =>
    rw [putAll_concat, keys_put, ih, List.map_append, List.map_singleton, eraseDups_concat]
    simp only [List.mem_eraseDups]

/-- Entries whose keys are there add no key. -/
theorem keys_putAll_of_subset (h : ∀ e ∈ es, e.1 ∈ m.keys) : (m.putAll es).keys = m.keys := by
  induction es generalizing m with
  | nil => rfl
  | cons e es ih =>
    have hkeys : (m.put e.1 e.2).keys = m.keys := by
      rw [keys_put, if_pos (h e List.mem_cons_self)]
    have hes : ∀ e' ∈ es, e'.1 ∈ (m.put e.1 e.2).keys := fun e' he' =>
      hkeys ▸ h e' (List.mem_cons_of_mem e he')
    exact (ih hes).trans hkeys

theorem mem_keys_putAll {e : κ × α} (he : e ∈ es) : e.1 ∈ (m.putAll es).keys := by
  rw [mem_keys_iff]
  cases hlast : (m.putAll es).get? e.1 with
  | some a => exact ⟨a, rfl⟩
  | none =>
    rw [get?_putAll, Option.or_eq_none_iff, List.lookup_eq_none_iff] at hlast
    exact absurd rfl (bne_iff_ne.mp (hlast.1 e (List.mem_reverse.mpr he)))

/-- Putting the same entries again changes nothing. -/
theorem putAll_again (m : Ordered κ α) (es : List (κ × α)) :
    m.putAll (es ++ es) = m.putAll es := by
  rw [putAll_append]
  refine ext_get? (keys_putAll_of_subset fun e he => mem_keys_putAll he) fun k => ?_
  rw [get?_putAll, get?_putAll, ← Option.or_assoc, Option.or_self]

/-- An entry that is put leaves all others as they are, in their order. -/
theorem filter_entries_put (m : Ordered κ α) (k : κ) (a : α) :
    (m.put k a).entries.filter (·.1 ≠ k) = m.entries.filter (·.1 ≠ k) := by
  show (putEntry k a m.entries).filter (·.1 ≠ k) = _
  generalize m.entries = l
  induction l with
  | nil => simp [putEntry]
  | cons e l ih =>
    rw [putEntry]
    split
    case isTrue h => simp [h]
    case isFalse h => rw [List.filter_cons, List.filter_cons, ih]

end Ordered

/-! ## 3. The mapper -/

namespace Mapper

/-- What a call puts into the table. -/
def Call.entry (c : Call) : String × Mapping := (c.1.identity, mappingOf c.1 c.2)

theorem table_mapEach (m : Mapper) (calls : List Call) :
    (m.mapEach calls).table = m.table.putAll (calls.map Call.entry) := by
  induction calls generalizing m with
  | nil => rfl
  | cons c calls ih => exact ih (m.mapEnum c.1 c.2)

/-- A mapper holds what some calls came to: each type once, in the order of the first calls, with
the mapping that the last call on it makes. -/
structure Keeps (m : Mapper) (calls : List Call) : Prop where
  nodup : m.table.keys.Nodup
  keys : m.table.keys = (calls.map (·.1.identity)).eraseDups
  mem_entries_iff : ∀ identity mapping, (identity, mapping) ∈ m.table.entries ↔
    ∃ earlier E naming later, calls = earlier ++ (E, naming) :: later ∧
      (∀ c ∈ later, c.1.identity ≠ E.identity) ∧ identity = E.identity ∧
      mapping = mappingOf E naming ∧ mapping.labels.length = E.variants.length
  get?_eq_some_iff : ∀ E mapping,
    m.get? E = some mapping ↔ (E.identity, mapping) ∈ m.table.entries

theorem keeps_mapEach (calls : List Call) : (empty.mapEach calls).Keeps calls where
  nodup := Ordered.nodup_keys _
  keys := by
    rw [table_mapEach, show empty.table = Ordered.empty from rfl, Ordered.keys_putAll_empty,
      List.map_map]
    rfl
  mem_entries_iff identity mapping := by
    rw [table_mapEach, show empty.table = Ordered.empty from rfl, Ordered.mem_entries_putAll_empty,
      Ordered.isLast_map_iff]
    constructor
    · rintro ⟨earlier, ⟨E, naming⟩, later, hcalls, hlater, hentry⟩
      obtain ⟨rfl, rfl⟩ := Prod.mk.inj hentry
      exact ⟨earlier, E, naming, later, hcalls, hlater, rfl, rfl, E.length_labels _⟩
    · rintro ⟨earlier, E, naming, later, hcalls, hlater, rfl, rfl, -⟩
      exact ⟨earlier, (E, naming), later, hcalls, hlater, rfl⟩
  get?_eq_some_iff _ _ := Ordered.mem_entries_iff.symm

theorem mapEach_append (m : Mapper) (calls calls' : List Call) :
    m.mapEach (calls ++ calls') = (m.mapEach calls).mapEach calls' := List.foldl_append

/-- Making the same calls again changes nothing. -/
theorem mapEach_again (m : Mapper) (calls : List Call) :
    m.mapEach (calls ++ calls) = m.mapEach calls := by
  have htable : (m.mapEach (calls ++ calls)).table = (m.mapEach calls).table := by
    rw [table_mapEach, table_mapEach, List.map_append, Ordered.putAll_again]
  exact congrArg Mapper.mk htable

end Mapper

/-! ## 4. The model -/

/-- What tells the types of a database apart. -/
def Sql.EnumDecl.key (d : Sql.EnumDecl) : Option String × String := (d.schema, d.name)

namespace Model

/-- A call that declares a database type for an enum. -/
structure Call where
  enum : EnumType
  schema : Option String
  /-- The name that is given in the call. -/
  name : Option String
  naming : Option Naming

/-- What a call declares. -/
def Call.decl (c : Call) : Sql.EnumDecl := declarationOf c.enum c.schema c.name c.naming

/-- Makes calls one after the other. -/
def declareEach (m : Model) (calls : List Call) : Model :=
  calls.foldl (fun m c => m.declareEnum c.enum c.schema c.name c.naming) m

@[inherit_doc Mapper.Call.entry]
def Call.entry (c : Call) : (Option String × String) × Sql.EnumDecl := (c.decl.key, c.decl)

theorem table_declareEach (m : Model) (calls : List Call) :
    (m.declareEach calls).table = m.table.putAll (calls.map Call.entry) := by
  induction calls generalizing m with
  | nil => rfl
  | cons c calls ih => exact ih (m.declareEnum c.enum c.schema c.name c.naming)

/-- A model holds what some calls came to: each schema and name once, in the order of the first
calls, with the labels that the last call for it gives. -/
structure Keeps (m : Model) (calls : List Call) : Prop where
  nodup : (m.decls.map Sql.EnumDecl.key).Nodup
  keys : m.decls.map Sql.EnumDecl.key = (calls.map (·.decl.key)).eraseDups
  mem_decls_iff : ∀ d, d ∈ m.decls ↔ ∃ earlier c later, calls = earlier ++ c :: later ∧
    (∀ c' ∈ later, c'.decl.key ≠ c.decl.key) ∧ d = c.decl
  find?_eq_some_iff : ∀ schema name d,
    m.find? schema name = some d ↔ d ∈ m.decls ∧ d.schema = schema ∧ d.name = name

section

variable (calls : List Call)

theorem mem_entries_declareEach {k : Option String × String} {d : Sql.EnumDecl} :
    (k, d) ∈ (empty.declareEach calls).table.entries ↔
      ∃ earlier c later, calls = earlier ++ c :: later ∧
        (∀ c' ∈ later, c'.decl.key ≠ c.decl.key) ∧ d = c.decl ∧ k = d.key := by
  rw [table_declareEach, show empty.table = Ordered.empty from rfl,
    Ordered.mem_entries_putAll_empty, Ordered.isLast_map_iff]
  refine exists₃_congr fun earlier c later => and_congr_right fun _ => and_congr_right fun _ => ?_
  constructor
  · intro h
    obtain ⟨rfl, rfl⟩ := Prod.mk.inj h
    exact ⟨rfl, rfl⟩
  · rintro ⟨rfl, rfl⟩
    rfl

/-- The keys of the table are those of the declarations in it. -/
theorem map_key_decls : (empty.declareEach calls).decls.map Sql.EnumDecl.key =
    (empty.declareEach calls).table.keys := by
  rw [decls, Ordered.values, List.map_map, Ordered.keys]
  refine List.map_congr_left fun e he => ?_
  obtain ⟨_, _, _, _, _, _, hkey⟩ := (mem_entries_declareEach calls).mp he
  exact hkey.symm

theorem mem_decls_iff_mem_entries {d : Sql.EnumDecl} : d ∈ (empty.declareEach calls).decls ↔
    (d.key, d) ∈ (empty.declareEach calls).table.entries := by
  rw [decls, Ordered.values, List.mem_map]
  constructor
  · rintro ⟨⟨k, d⟩, he, rfl⟩
    obtain ⟨_, _, _, _, _, _, rfl⟩ := (mem_entries_declareEach calls).mp he
    exact he
  · exact fun he => ⟨_, he, rfl⟩

theorem filter_decls (k : Option String × String) :
    (empty.declareEach calls).decls.filter (·.key ≠ k) =
      ((empty.declareEach calls).table.entries.filter (·.1 ≠ k)).map Prod.snd := by
  rw [decls, Ordered.values, List.filter_map]
  refine congrArg _ (List.filter_congr fun e he => ?_)
  obtain ⟨_, _, _, _, _, _, hkey⟩ := (mem_entries_declareEach calls).mp he
  rw [Function.comp_apply, hkey]

theorem keeps_declareEach : (empty.declareEach calls).Keeps calls where
  nodup := by
    rw [map_key_decls]
    exact Ordered.nodup_keys _
  keys := by
    rw [map_key_decls, table_declareEach, show empty.table = Ordered.empty from rfl,
      Ordered.keys_putAll_empty, List.map_map]
    rfl
  mem_decls_iff d := by
    rw [mem_decls_iff_mem_entries, mem_entries_declareEach]
    simp only [and_true]
  find?_eq_some_iff schema name d := by
    rw [find?, ← Ordered.mem_entries_iff, mem_decls_iff_mem_entries]
    constructor
    · intro he
      obtain ⟨_, _, _, _, _, _, hkey⟩ := (mem_entries_declareEach calls).mp he
      obtain ⟨hschema, hname⟩ := Prod.mk.inj hkey
      exact ⟨hkey ▸ he, hschema.symm, hname.symm⟩
    · rintro ⟨he, rfl, rfl⟩
      exact he

end

theorem declareEach_append (m : Model) (calls calls' : List Call) :
    m.declareEach (calls ++ calls') = (m.declareEach calls).declareEach calls' := List.foldl_append

/-- Making the same calls again changes nothing. -/
theorem declareEach_again (m : Model) (calls : List Call) :
    m.declareEach (calls ++ calls) = m.declareEach calls := by
  have htable : (m.declareEach (calls ++ calls)).table = (m.declareEach calls).table := by
    rw [table_declareEach, table_declareEach, List.map_append, Ordered.putAll_again]
  exact congrArg Model.mk htable

end Model

/-! ## 5. Both -/

/-- From every mapper and every model that calls lead to, further calls lead to one that holds what
all the calls came to, each key once and in the order of the first calls. A single call changes no
other entry, and making all the further calls a second time changes nothing. -/
theorem mapEach_declareEach_inOrder :
    (∀ before calls : List Mapper.Call,
      let m := Mapper.empty.mapEach before
      (m.mapEach calls).Keeps (before ++ calls) ∧
      (∀ E naming, (m.mapEnum E naming).table.entries.filter (·.1 ≠ E.identity) =
        m.table.entries.filter (·.1 ≠ E.identity)) ∧
      m.mapEach (calls ++ calls) = m.mapEach calls) ∧
    ∀ before calls : List Model.Call,
      let m := Model.empty.declareEach before
      (m.declareEach calls).Keeps (before ++ calls) ∧
      (∀ c : Model.Call, (m.declareEach [c]).decls.filter (·.key ≠ c.decl.key) =
        m.decls.filter (·.key ≠ c.decl.key)) ∧
      m.declareEach (calls ++ calls) = m.declareEach calls := by
  refine ⟨fun before calls => ⟨?_, fun E naming => ?_, ?_⟩, fun before calls => ⟨?_, fun c => ?_, ?_⟩⟩
  · rw [← Mapper.mapEach_append]
    exact Mapper.keeps_mapEach (before ++ calls)
  · exact Ordered.filter_entries_put _ E.identity _
  · exact Mapper.mapEach_again _ calls
  · rw [← Model.declareEach_append]
    exact Model.keeps_declareEach (before ++ calls)
  · show (Model.declareEach (Model.empty.declareEach before) [c]).decls.filter _ = _
    rw [← Model.declareEach_append, Model.filter_decls, Model.filter_decls, Model.declareEach_append]
    exact congrArg _ (Ordered.filter_entries_put _ c.decl.key c.decl)
  · exact Model.declareEach_again _ calls

end EnumCatalog
