import EnumCatalog.Proofs.DiskChanges
import EnumCatalog.Proofs.ScannedFiles
import Mathlib.Data.List.Induction
import Mathlib.Data.List.TakeWhile

/-!
# Steps of names

Of the pieces of a name, those lead on that are neither empty nor a dot. They are its *steps*
(`FsPath.steps`): names of entries, and two dots for the directory around. Where the name of a
directory leads is a matter of its steps (`Disk.lead?`, `Disk.lead?_of_canonical?`), and so
is where a name leads that is made up from there (`Disk.canonical?_join_eq_bind`).

The directory around and the name of a directory are read off its steps as well. So is the source
root, which is where the steps come to `src` for the last time (`FsPath.steps_sourceRoot`).
-/

set_option autoImplicit false

namespace EnumCatalog

/-! ## 1. Steps -/

namespace FsPath

/-- The pieces of a text that lead on. -/
def stepsIn (cs : List Char) : List String :=
  ((pieces cs).filter (!isFiller ·)).map String.ofList

/-- The pieces of a name that lead on. -/
def steps (p : FsPath) : List String := stepsIn p.text.toList

variable {p q dir : FsPath} {name : String}

theorem stepsIn_append_slash (as bs : List Char) :
    stepsIn (as ++ '/' :: bs) = stepsIn as ++ stepsIn bs := by
  rw [stepsIn, pieces_append_slash, List.filter_append, List.map_append, stepsIn, stepsIn]

theorem stepsIn_nil : stepsIn [] = [] := rfl

theorem isFiller_eq (cs : List Char) :
    isFiller cs = (String.ofList cs == "" || String.ofList cs == ".") := by
  have hempty : (cs == []) = (String.ofList cs == "") := by
    rw [Bool.eq_iff_iff, beq_iff_eq, beq_iff_eq, String.ofList_eq_empty_iff]
  have hdot : (cs == ['.']) = (String.ofList cs == ".") := by
    rw [Bool.eq_iff_iff, beq_iff_eq, beq_iff_eq, ← String.toList_inj, String.toList_ofList]
    exact Iff.rfl
  rw [isFiller, hempty, hdot]

theorem filter_map_pieces (cs : List Char) :
    ((pieces cs).map String.ofList).filter (fun piece => !(piece == "" || piece == ".")) =
      stepsIn cs := by
  rw [List.filter_map, stepsIn]
  congr 2
  funext cs
  rw [Function.comp_apply, isFiller_eq]

theorem text_ne_of_steps_ne_nil (h : p.steps ≠ []) : p.text ≠ "" := by
  intro hempty
  rw [steps, hempty] at h
  exact h rfl

/-- There are no more steps than characters, and one. -/
theorem length_steps_le (p : FsPath) : p.steps.length ≤ p.text.length + 1 := by
  have hpieces : ∀ cs : List Char, (pieces cs).length ≤ cs.length + 1 := by
    intro cs
    induction cs with
    | nil => exact Nat.le_refl _
    | cons c cs ih =>
      rw [pieces]
      split
      · exact Nat.succ_le_succ ih
      · cases h : pieces cs with
        | nil => simp
        | cons q qs =>
          rw [h] at ih
          exact Nat.le_succ_of_le ih
  rw [steps, stepsIn, List.length_map, ← String.length_toList]
  exact Nat.le_trans (List.length_filter_le _ _) (hpieces _)

/-! ## 2. A name made up from a directory -/

theorem stepsIn_front {front : List Char}
    (h : dir.text.toList = front ∨ dir.text.toList = front ++ ['/']) :
    stepsIn front = dir.steps := by
  rcases h with h | h
  · rw [steps, h]
  · rw [steps, h, stepsIn_append_slash, stepsIn_nil, List.append_nil]

theorem steps_join (hdir : dir.text ≠ "") (hq : q.isAbsolute = false) :
    (dir.join q).steps = dir.steps ++ q.steps := by
  obtain ⟨-, front, htext, hfront⟩ := text_join_of_relative hdir hq
  rw [steps, htext, stepsIn_append_slash, stepsIn_front hfront]
  rfl

theorem steps_entryName (h : IsEntryName name) : (⟨name⟩ : FsPath).steps = [name] := by
  rw [steps, stepsIn, pieces_entryName h, List.map_singleton, String.ofList_toList]

/-! ## 3. The directory around -/

theorem joinPieces_cons (p : List Char) {qs : List (List Char)} (hq : qs ≠ []) :
    joinPieces (p :: qs) = p ++ '/' :: joinPieces qs := by
  obtain ⟨q, qs, rfl⟩ := List.exists_cons_of_ne_nil hq
  rw [joinPieces, List.intercalate_cons_cons, List.append_assoc, joinPieces]
  rfl

theorem joinPieces_append {ps qs : List (List Char)} (hp : ps ≠ []) (hq : qs ≠ []) :
    joinPieces (ps ++ qs) = joinPieces ps ++ '/' :: joinPieces qs := by
  induction ps with
  | nil => exact absurd rfl hp
  | cons p ps ih =>
    rw [List.cons_append, joinPieces_cons p (by simp [hq])]
    cases ps with
    | nil => rw [List.nil_append, joinPieces, joinPieces, List.intercalate_singleton]
    | cons p' ps =>
      rw [ih (List.cons_ne_nil _ _), joinPieces_cons p (List.cons_ne_nil _ _), List.append_assoc,
        List.cons_append]

theorem pieces_joinPieces {ps : List (List Char)} (hne : ps ≠ []) (hps : ∀ p ∈ ps, '/' ∉ p) :
    pieces (joinPieces ps) = ps := by
  induction ps with
  | nil => exact absurd rfl hne
  | cons p ps ih =>
    rw [List.forall_mem_cons] at hps
    cases ps with
    | nil => rw [joinPieces, List.intercalate_singleton, pieces_of_not_mem hps.1]
    | cons p' ps =>
      rw [joinPieces_cons p (List.cons_ne_nil _ _), pieces_append_slash, pieces_of_not_mem hps.1,
        ih (List.cons_ne_nil _ _) hps.2, List.singleton_append]

/-- The last of those that are not left out, cut off with all that are left out around it. -/
theorem exists_of_dropWhile_reverse {α : Type} {f : α → Bool} {as above : List α} {last : α}
    (h : as.reverse.dropWhile f = last :: above) :
    ∃ cut, as = (above.dropWhile f).reverse ++ cut ∧ cut ≠ [] ∧ cut.filter (!f ·) = [last] := by
  have hlast : f last = false := by
    have hne : as.reverse.dropWhile f ≠ [] := by simp [h]
    have := List.head_dropWhile_not f hne
    simpa [h] using this
  have hnone : ∀ l : List α, (l.takeWhile f).reverse.filter (!f ·) = [] := by
    intro l
    rw [List.filter_eq_nil_iff]
    intro a ha
    simp [List.mem_takeWhile_imp (List.mem_reverse.mp ha)]
  refine ⟨(above.takeWhile f).reverse ++ [last] ++ (as.reverse.takeWhile f).reverse, ?_, by simp, ?_⟩
  · rw [← List.append_assoc, ← List.append_assoc, ← List.reverse_append,
      List.takeWhile_append_dropWhile, ← List.reverse_cons, ← h, ← List.reverse_append,
      List.takeWhile_append_dropWhile, List.reverse_reverse]
  · rw [List.filter_append, List.filter_append, hnone, hnone,
      List.filter_cons_of_pos (by simp [hlast])]
    rfl

/-- The start of a name leads nowhere. -/
theorem stepsIn_split_fst (cs : List Char) : stepsIn (split cs).1 = [] := by
  unfold split
  split <;> rfl

theorem steps_eq_body (p : FsPath) :
    p.steps = ((pieces (split p.text.toList).2).filter (!isFiller ·)).map String.ofList := by
  rw [filter_pieces_split]
  rfl

/-- The name of the directory around is made up from the pieces in front of the last step. -/
theorem exists_cut (h : p.steps ≠ []) : ∃ kept cut last,
    pieces (split p.text.toList).2 = kept ++ cut ∧ cut ≠ [] ∧ cut.filter (!isFiller ·) = [last] ∧
      p.parent? = some ⟨String.ofList ((split p.text.toList).1 ++ joinPieces kept)⟩ := by
  rw [steps_eq_body] at h
  have hdrop : (pieces (split p.text.toList).2).reverse.dropWhile isFiller ≠ [] := by
    intro hnil
    refine h ?_
    rw [List.map_eq_nil_iff, List.filter_eq_nil_iff]
    intro piece hpiece
    simp [List.dropWhile_eq_nil_iff.mp hnil piece (List.mem_reverse.mpr hpiece)]
  obtain ⟨last, above, hlast⟩ := List.exists_cons_of_ne_nil hdrop
  obtain ⟨cut, hcut, hne, hone⟩ := exists_of_dropWhile_reverse hlast
  refine ⟨_, cut, last, hcut, hne, hone, ?_⟩
  unfold parent?
  simp only [hlast]

/-- The directory around is called by all steps but the last. -/
theorem exists_parent? (h : p.steps ≠ []) : ∃ q, p.parent? = some q ∧ q.steps = p.steps.dropLast ∧
    q.text.toList <+: p.text.toList := by
  obtain ⟨kept, cut, last, hpieces, hne, hone, hparent⟩ := exists_cut h
  have htext : (split p.text.toList).1 ++ joinPieces (kept ++ cut) = p.text.toList := by
    rw [← hpieces, joinPieces_pieces, split_fst_append_snd]
  refine ⟨_, hparent, ?_, ?_⟩
  · rw [steps, String.toList_ofList]
    by_cases hkept : kept = []
    · subst hkept
      rw [steps_eq_body, hpieces, List.nil_append, hone]
      exact (congrArg stepsIn (List.append_nil _)).trans (stepsIn_split_fst _)
    · -- What is cut off comes behind a slash.
      have hslash : ∀ piece ∈ cut, '/' ∉ piece := fun piece hpiece =>
        not_mem_pieces (hpieces ▸ List.mem_append_right kept hpiece)
      have hsteps : p.steps = stepsIn ((split p.text.toList).1 ++ joinPieces kept) ++
          stepsIn (joinPieces cut) := by
        rw [← stepsIn_append_slash, List.append_assoc, ← joinPieces_append hkept hne, htext, steps]
      rw [hsteps, stepsIn.eq_1 (joinPieces cut), pieces_joinPieces hne hslash, hone,
        List.map_singleton, List.dropLast_concat]
  · rw [String.toList_ofList]
    by_cases hkept : kept = []
    · subst hkept
      exact ⟨joinPieces cut, (congrArg (· ++ _) (List.append_nil _)).trans htext⟩
    · rw [joinPieces_append hkept hne, ← List.append_assoc] at htext
      exact ⟨_, htext⟩

/-- A name that is the beginning of another is relative if the other is. -/
theorem isAbsolute_of_prefix (h : q.text.toList <+: p.text.toList) (hp : p.isAbsolute = false) :
    q.isAbsolute = false := by
  obtain ⟨rest, hrest⟩ := h
  rw [isAbsolute, ← hrest] at hp
  unfold isAbsolute
  cases hq : q.text.toList with
  | nil => rfl
  | cons c cs =>
    rw [hq] at hp
    exact hp

/-! ## 4. The source root -/

/-- The last part of a name is the last step, unless that leads to the directory around. -/
theorem fileName?_eq (p : FsPath) : p.fileName? = p.steps.getLast?.filter (· != "..") := by
  have hstart : ∀ cs, startPart cs = none ∨ startPart cs = some .top ∨ startPart cs = some .here := by
    intro cs
    unfold startPart
    split <;> simp
  rw [fileName?, parts_eq, steps, stepsIn]
  generalize (pieces p.text.toList).filter (!isFiller ·) = ps
  rcases List.eq_nil_or_concat ps with rfl | ⟨ps, piece, rfl⟩
  · rcases hstart (split p.text.toList).1 with h | h | h <;> rw [h] <;> rfl
  · have hup : (piece == ['.', '.']) = (String.ofList piece == "..") := by
      rw [Bool.eq_iff_iff, beq_iff_eq, beq_iff_eq, ← String.toList_inj, String.toList_ofList]
      exact Iff.rfl
    rw [List.concat_eq_append, List.map_append, List.map_append, List.map_singleton,
      List.map_singleton, ← List.append_assoc, List.getLast?_concat, List.getLast?_concat, bodyPart,
      hup]
    cases hpiece : String.ofList piece == ".." <;> simp [Option.filter, bne, hpiece]

theorem fileName?_eq_src_iff :
    (p.fileName? == some "src") = true ↔ p.steps.getLast? = some "src" := by
  rw [beq_iff_eq, fileName?_eq, Option.filter_eq_some_iff]
  exact and_iff_left rfl

theorem exists_ancestors_cons (p : FsPath) (fuel : Nat) :
    ∃ rest, ancestors.go p fuel = p :: rest := by
  cases fuel with
  | zero => exact ⟨[], rfl⟩
  | succ fuel =>
    rw [ancestors.go]
    split <;> exact ⟨_, rfl⟩

theorem exists_find?_ancestors {above below : List String} {fuel : Nat}
    (hsteps : p.steps = above ++ "src" :: below) (hbelow : "src" ∉ below)
    (hfuel : below.length ≤ fuel) :
    ∃ root, (ancestors.go p fuel).find? (·.fileName? == some "src") = some root ∧
      root.steps = above ++ ["src"] ∧ root.text.toList <+: p.text.toList := by
  -- From the last step up: a directory that is not called so is passed, and its parent is next.
  induction below using List.reverseRecOn generalizing p fuel with
  | nil =>
    obtain ⟨rest, hrest⟩ := exists_ancestors_cons p fuel
    have hname : (p.fileName? == some "src") = true := by
      rw [fileName?_eq_src_iff, hsteps, List.getLast?_concat]
    exact ⟨p, by rw [hrest, List.find?_cons_of_pos (by exact hname)], hsteps, List.prefix_refl _⟩
  | append_singleton below step ih =>
    rw [List.mem_append, List.mem_singleton, not_or] at hbelow
    rw [List.length_append, List.length_singleton] at hfuel
    obtain ⟨fuel, rfl⟩ := Nat.exists_eq_add_one_of_ne_zero (Nat.ne_of_gt (Nat.lt_of_lt_of_le
      (Nat.succ_pos _) hfuel))
    rw [← List.cons_append, ← List.append_assoc] at hsteps
    have hname : ¬ (p.fileName? == some "src") = true := by
      rw [fileName?_eq_src_iff, hsteps, List.getLast?_concat, Option.some.injEq]
      exact fun h => hbelow.2 h.symm
    obtain ⟨q, hq, hqSteps, hqText⟩ := exists_parent? (p := p) (by simp [hsteps])
    rw [hsteps, List.dropLast_concat] at hqSteps
    obtain ⟨root, hfind, hroot, htext⟩ :=
      ih hqSteps hbelow.1 (Nat.le_of_succ_le_succ hfuel)
    refine ⟨root, ?_, hroot, htext.trans hqText⟩
    rw [ancestors.go, hq]
    simp only
    rw [List.find?_cons_of_neg (by exact hname), hfind]

theorem exists_last_src (h : "src" ∈ p.steps) :
    ∃ above below, p.steps = above ++ "src" :: below ∧ "src" ∉ below := by
  obtain ⟨below, above, hreverse, hbelow⟩ := List.eq_append_cons_of_mem (List.mem_reverse.mpr h)
  refine ⟨above.reverse, below.reverse, ?_, mt List.mem_reverse.mp hbelow⟩
  rw [← List.reverse_inj, hreverse]
  simp

/-- The source root is where the steps come to `src` for the last time. -/
theorem steps_sourceRoot {above below : List String}
    (hsteps : p.steps = above ++ "src" :: below) (hbelow : "src" ∉ below) :
    (Loading.sourceRoot p).steps = above ++ ["src"] ∧
      (Loading.sourceRoot p).text.toList <+: p.text.toList := by
  have hlength := p.length_steps_le
  rw [hsteps, List.length_append, List.length_cons] at hlength
  have hfuel : below.length ≤ p.text.length + 1 := by omega
  obtain ⟨root, hfind, hroot⟩ := exists_find?_ancestors hsteps hbelow hfuel
  have hfound : Loading.sourceRoot p = root := by
    rw [Loading.sourceRoot, ancestors, hfind, Option.getD_some]
  rw [hfound]
  exact hroot

end FsPath

/-! ## 5. Where steps lead -/

namespace Disk

variable {d : Disk} {p q dir : FsPath} {here k l : Location} {names steps : List String}

/-- The directory that steps lead to from a directory on. -/
def lead? (d : Disk) : Location → List String → Option Location
  | here, [] => some here
  | here, step :: rest =>
    if step == ".." then if here.isEmpty then none else d.lead? here.dropLast rest
    else if d.view (here ++ [step]) = some none then d.lead? (here ++ [step]) rest
    else none

/-- Steps lead to directories. -/
theorem view_of_lead? (hhere : d.view here = some none) (h : d.lead? here steps = some k) :
    d.view k = some none := by
  induction steps generalizing here with
  | nil =>
    rw [lead?, Option.some.injEq] at h
    exact h ▸ hhere
  | cons step steps ih =>
    rw [lead?] at h
    split at h
    · split at h
      · cases h
      · exact ih (view_dropLast hhere) h
    · split at h
      case isTrue hstep => exact ih hstep h
      case isFalse => cases h

theorem lead?_append (d : Disk) (here : Location) (as bs : List String) :
    d.lead? here (as ++ bs) = (d.lead? here as).bind (d.lead? · bs) := by
  induction as generalizing here with
  | nil => rfl
  | cons step as ih =>
    rw [List.cons_append, lead?, lead?]
    split
    · split
      · rfl
      · exact ih _
    · split
      · exact ih _
      · rfl

/-- With more behind it, a look-up passes through directories, as its steps lead. -/
theorem walk_append_of_ne_nil (hp : d.IsPlain) (jump : Location → List String → Option Location)
    (here : Location) (as : List String) {bs : List String} (hbs : bs ≠ []) :
    walk d .follow jump here (as ++ bs) =
      (d.lead? here (as.filter fun piece => !(piece == "" || piece == "."))).bind
        (walk d .follow jump · bs) := by
  induction as generalizing here with
  | nil => rfl
  | cons piece as ih =>
    rw [List.cons_append, walk_cons hp]
    split
    case isTrue hfiller => rw [List.filter_cons_of_neg (by simp [hfiller]), ih]
    case isFalse hfiller =>
      rw [List.filter_cons_of_pos (by simp [hfiller]), lead?]
      split
      · split
        · rfl
        · exact ih _
      · cases hview : d.view (here ++ [piece]) with
        | none => simp
        | some v =>
          cases v with
          | none => simpa using ih _
          | some c => simp [hbs]

theorem walk_of_canonical? (hp : d.IsPlain) (h : d.canonical? p = some l) :
    p.isAbsolute = false ∧ walk d .follow (fun _ _ => none) [] (piecesOf p) = some l := by
  rw [canonical?, locate?_of_isPlain hp] at h
  split at h
  case isTrue => cases h
  case isFalse hcond =>
    rw [Bool.or_eq_true, not_or] at hcond
    exact ⟨eq_false_of_ne_true hcond.2, h⟩

theorem canonical?_eq_walk (hp : d.IsPlain) (hne : p.text ≠ "") (habs : p.isAbsolute = false) :
    d.canonical? p = walk d .follow (fun _ _ => none) [] (piecesOf p) := by
  rw [canonical?, locate?_of_isPlain hp, String.isEmpty_eq_false_iff.mpr hne, habs, Bool.or_self,
    if_neg Bool.false_ne_true]

/-- With a slash at the end, a name is looked up as its steps lead. -/
theorem walk_append_slash (hp : d.IsPlain) (p : FsPath) :
    walk d .follow (fun _ _ => none) [] (piecesOf p ++ [""]) = d.lead? [] p.steps := by
  have hend (l : Location) : walk d .follow (fun _ _ => none) l [""] = some l := by
    rw [walk, if_pos (by decide), walk]
  rw [walk_append_of_ne_nil hp _ _ _ (List.cons_ne_nil _ _), piecesOf, FsPath.filter_map_pieces]
  simp only [hend]
  exact Option.bind_fun_some _

theorem view_of_isDirectory (hdir : d.isDirectory p = true) (h : d.canonical? p = some l) :
    d.view l = some none := by
  obtain ⟨es, hes⟩ := exists_entries_of_isDirectory h hdir
  rw [view, hes]
  rfl

/-- The name of a directory leads where its steps lead. -/
theorem lead?_of_canonical? (hp : d.IsPlain) (h : d.canonical? p = some l)
    (hl : d.view l = some none) : d.lead? [] p.steps = some l := by
  rw [← walk_append_slash hp, walk_append hp hl (walk_of_canonical? hp h).2, walk,
    if_pos (by decide), walk]

theorem canonical?_of_lead? (hp : d.IsPlain) (hne : p.text ≠ "") (habs : p.isAbsolute = false)
    (h : d.lead? [] p.steps = some l) : d.canonical? p = some l := by
  rw [← walk_append_slash hp] at h
  have hwalk : walk d .follow (fun _ _ => none) [] (piecesOf p ++ []) = some l :=
    (walk_append_nil hp h).trans (by rw [walk])
  rw [List.append_nil] at hwalk
  rw [canonical?_eq_walk hp hne habs, hwalk]

/-- Where a name leads that is made up from a directory, is a matter of that directory's steps. -/
theorem canonical?_join_eq_bind (hp : d.IsPlain) (hne : dir.text ≠ "")
    (habs : dir.isAbsolute = false) (hq : q.isAbsolute = false) :
    d.canonical? (dir.join q) =
      (d.lead? [] dir.steps).bind (walk d .follow (fun _ _ => none) · (piecesOf q)) := by
  obtain ⟨hjoin, front, htext, hfront⟩ := FsPath.text_join_of_relative hne hq
  have hjoinNe := FsPath.text_join_of_relative_ne hne hq
  have hpieces : piecesOf q ≠ [] := by simp [piecesOf, FsPath.pieces_ne_nil]
  rw [canonical?_eq_walk hp hjoinNe (hjoin.trans habs), piecesOf, htext,
    FsPath.pieces_append_slash, List.map_append, ← FsPath.stepsIn_front hfront,
    ← FsPath.filter_map_pieces]
  exact walk_append_of_ne_nil hp _ _ _ hpieces

/-- Without steps to the directory around, they lead down. -/
theorem eq_append_of_lead? (hup : ".." ∉ steps) (h : d.lead? here steps = some k) :
    k = here ++ steps := by
  induction steps generalizing here with
  | nil =>
    rw [lead?, Option.some.injEq] at h
    rw [List.append_nil, h]
  | cons step steps ih =>
    rw [List.mem_cons, not_or] at hup
    rw [lead?, if_neg (by simpa using fun heq => hup.1 heq.symm)] at h
    split at h
    · rw [ih hup.2 h, List.append_assoc, List.singleton_append]
    · cases h

/-- What steps come down to anew, they name. -/
theorem exists_of_lead? (h : d.lead? here steps = some k) :
    ∃ kept new, k = kept ++ new ∧ kept <+: here ∧ ∀ n ∈ new, n ∈ steps := by
  induction steps generalizing here with
  | nil =>
    rw [lead?, Option.some.injEq] at h
    exact ⟨here, [], by simp [h], List.prefix_refl _, fun n hn => absurd hn List.not_mem_nil⟩
  | cons step steps ih =>
    rw [lead?] at h
    split at h
    · split at h
      · cases h
      · obtain ⟨kept, new, rfl, hkept, hnew⟩ := ih h
        exact ⟨kept, new, rfl, hkept.trans (List.dropLast_prefix here),
          fun n hn => List.mem_cons_of_mem _ (hnew n hn)⟩
    · split at h
      · obtain ⟨kept, new, rfl, hkept, hnew⟩ := ih h
        rcases List.prefix_concat_iff.mp hkept with rfl | hkept
        · refine ⟨here, step :: new, ?_, List.prefix_refl _, ?_⟩
          · rw [List.append_assoc, List.singleton_append]
          · exact List.forall_mem_cons.mpr
              ⟨List.mem_cons_self, fun n hn => List.mem_cons_of_mem _ (hnew n hn)⟩
        · exact ⟨kept, new, rfl, hkept, fun n hn => List.mem_cons_of_mem _ (hnew n hn)⟩
      · cases h

end Disk

end EnumCatalog
