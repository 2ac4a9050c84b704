import EnumCatalog.Proofs.Extraction

/-!
# Cancelling a pass from outside

Each descriptor is handed to whoever asked for the pass as soon as it is found, and that may cancel
the pass, whose token is polled before each candidate (`Listener`, `Extraction.passTo`). The
cancellation that the pass is written for, after so many descriptors, is what one such listener does
(`extractTo_countdown_eq`).

What a pass has found when it is cancelled is the beginning of what it would have found. Since
candidates are polled for and not descriptors, it counts as aborted if *any* candidate is left behind
the one that delivered the last descriptor, tagged or not (`extractTo_countdown`).
-/

set_option autoImplicit false

namespace EnumCatalog

/-! ## 1. Listeners -/

/-- What takes in the descriptors of a pass, with a state of its own. -/
structure Listener (σ : Type) where
  receive : σ → Descriptor → σ
  /-- Whether the token of the pass has been cancelled. -/
  isCancelled : σ → Bool

namespace Extraction

variable {σ : Type}

/-- Goes through candidates, handing on each descriptor as soon as it is found. Answers the outcome
and the state that the listener is left in. -/
def passTo (l : Listener σ) (examine : Candidate → List Note × Option Descriptor) :
    σ → List Candidate → Extraction × σ
  | s, [] => (⟨[], [], false⟩, s)
  | s, c :: rest =>
    if l.isCancelled s then (⟨[], [.cancelled], true⟩, s)
    else
      let r := passTo l examine ((examine c).2.toList.foldl l.receive s) rest
      ((r.1.withDescriptor (examine c).2).withNotes (examine c).1, r.2)

end Extraction

/-- The enums of a program that are tagged with a marker, handed to a listener one by one. -/
def Program.extractTo {σ : Type} (p : Program) (m : Marker) (crateName : String) (l : Listener σ)
    (s : σ) : Extraction × σ :=
  let live := p.liveCandidates
  let opening := .found live.length p.files.length ::
    p.disabledCandidates.map fun c => .skipped c.name c.file .notCompiled
  if p.mentions m.crateName then
    let r := Extraction.passTo l (Extraction.examine p.scopes m crateName) s live
    (r.1.withNotes opening, r.2)
  else (⟨[], opening ++ [.unreferenced m], false⟩, s)

/-- The descriptors that have been received, and the token that is handed to the pass. -/
structure Receipt where
  received : List Descriptor
  isCancelled : Bool
  deriving DecidableEq, Repr

namespace Receipt

/-- Nothing has been received, and the token is cancelled before the pass if it is to be so after no
descriptor at all. -/
def start (k : Nat) : Receipt := ⟨[], k == 0⟩

/-- Cancels the token on receiving the descriptor of a number. A token stays cancelled. -/
def countdown (k : Nat) : Listener Receipt where
  receive r d := ⟨r.received ++ [d], r.isCancelled || r.received.length + 1 == k⟩
  isCancelled := Receipt.isCancelled

end Receipt

namespace Extraction

variable {examine : Candidate → List Note × Option Descriptor} {k found : Nat}

/-! ## 2. The pass step by step -/

theorem pass_cons (stop : Cancellation) (c : Candidate) (cs : List Candidate) :
    pass stop examine found (c :: cs) =
      if stop.isDue found then ⟨[], [.cancelled], true⟩
      else ((pass stop examine (found + (examine c).2.toList.length) cs).withDescriptor
        (examine c).2).withNotes (examine c).1 := rfl

theorem pass_of_due (h : k ≤ found) (c : Candidate) (cs : List Candidate) :
    pass ⟨some k⟩ examine found (c :: cs) = ⟨[], [.cancelled], true⟩ := by
  rw [pass_cons, if_pos]
  simpa [Cancellation.isDue] using h

theorem pass_of_not_due (h : ¬ k ≤ found) (c : Candidate) (cs : List Candidate) :
    pass ⟨some k⟩ examine found (c :: cs) =
      ((pass ⟨some k⟩ examine (found + (examine c).2.toList.length) cs).withDescriptor
        (examine c).2).withNotes (examine c).1 := by
  rw [pass_cons, if_neg]
  simpa [Cancellation.isDue] using h

/-- How many have been found so far makes no difference if the pass is never cancelled. -/
theorem pass_never_cons (c : Candidate) (cs : List Candidate) :
    pass .never examine found (c :: cs) =
      ((pass .never examine (found + (examine c).2.toList.length) cs).withDescriptor
        (examine c).2).withNotes (examine c).1 := by
  rw [pass_cons, if_neg]
  simp [Cancellation.isDue, Cancellation.never]

/-- The token is cancelled as soon as so many descriptors have been received. -/
theorem receive_countdown {r : Receipt} (hr : r.isCancelled = decide (k ≤ r.received.length))
    (d : Option Descriptor) :
    d.toList.foldl (Receipt.countdown k).receive r =
      ⟨r.received ++ d.toList, decide (k ≤ (r.received ++ d.toList).length)⟩ := by
  cases d with
  | none => simp [← hr]
  | some d =>
    have hnext : (decide (k ≤ r.received.length) || r.received.length + 1 == k) =
        decide (k ≤ r.received.length + 1) := by
      rw [Bool.eq_iff_iff]
      simp only [Bool.or_eq_true, decide_eq_true_eq, beq_iff_eq]
      omega
    simp [Receipt.countdown, hr, hnext]

/-- A pass with such a listener is a pass that is cancelled after so many descriptors, and what the
listener has received are the descriptors of the outcome. -/
theorem passTo_countdown (cs : List Candidate) {r : Receipt}
    (hr : r.isCancelled = decide (k ≤ r.received.length)) :
    (passTo (Receipt.countdown k) examine r cs).1 = pass ⟨some k⟩ examine r.received.length cs ∧
      (passTo (Receipt.countdown k) examine r cs).2.received =
        r.received ++ (pass ⟨some k⟩ examine r.received.length cs).descriptors := by
  induction cs generalizing r with
  | nil => simp [passTo, pass]
  | cons c cs ih =>
    rw [passTo]
    by_cases hdue : k ≤ r.received.length
    · have hcancelled : (Receipt.countdown k).isCancelled r = true := by
        simpa [Receipt.countdown, hr] using hdue
      rw [if_pos hcancelled, pass_of_due hdue]
      simp
    · have hcancelled : ¬ (Receipt.countdown k).isCancelled r = true := by
        simpa [Receipt.countdown, hr] using hdue
      rw [if_neg hcancelled, pass_of_not_due hdue, receive_countdown hr]
      obtain ⟨hpass, hreceived⟩ := ih (r := ⟨r.received ++ (examine c).2.toList,
        decide (k ≤ (r.received ++ (examine c).2.toList).length)⟩) rfl
      simp only [List.length_append] at hpass hreceived ⊢
      rw [hpass, hreceived]
      simp [withNotes, withDescriptor]

/-! ## 3. What is found before a pass is cancelled -/

/-- The candidates deliver so many descriptors, the last of them with the last candidate. There are
no candidates if there is nothing to deliver. -/
def DeliversLast (examine : Candidate → List Note × Option Descriptor) (k : Nat)
    (cs : List Candidate) : Prop :=
  (cs.filterMap fun c => (examine c).2).length = k ∧ ∀ c ∈ cs.getLast?, (examine c).2.isSome

theorem deliversLast_zero_iff {cs : List Candidate} : DeliversLast examine 0 cs ↔ cs = [] := by
  constructor
  · rintro ⟨hlength, hlast⟩
    by_contra hne
    have hmem := List.getLast_mem hne
    have hsome := hlast _ (List.getLast?_eq_getLast_of_ne_nil hne)
    obtain ⟨d, hd⟩ := Option.isSome_iff_exists.mp hsome
    have hd' : d ∈ cs.filterMap fun c => (examine c).2 := List.mem_filterMap.mpr ⟨_, hmem, hd⟩
    rw [List.length_eq_zero_iff.mp hlength] at hd'
    cases hd'
  · rintro rfl
    exact ⟨rfl, fun c hc => by cases hc⟩

theorem deliversLast_cons_of_none {c : Candidate} {cs : List Candidate} (hc : (examine c).2 = none) :
    DeliversLast examine (k + 1) (c :: cs) ↔ DeliversLast examine (k + 1) cs := by
  unfold DeliversLast
  cases cs with
  | nil => simp [hc]
  | cons c' cs => simp [List.filterMap_cons, hc]

theorem deliversLast_cons_of_some {c : Candidate} {cs : List Candidate} {d : Descriptor}
    (hc : (examine c).2 = some d) :
    DeliversLast examine (k + 1) (c :: cs) ↔ DeliversLast examine k cs := by
  unfold DeliversLast
  cases cs with
  | nil => simpa [hc] using eq_comm
  | cons c' cs => simp [List.filterMap_cons, hc]

/-- What is found is the beginning of what there is to find. -/
theorem descriptors_pass (cs : List Candidate) (k found : Nat) :
    (pass ⟨some k⟩ examine found cs).descriptors =
      (cs.filterMap fun c => (examine c).2).take (k - found) := by
  induction cs generalizing found with
  | nil => simp [pass]
  | cons c cs ih =>
    by_cases hdue : k ≤ found
    · rw [pass_of_due hdue, Nat.sub_eq_zero_of_le hdue, List.take_zero]
    · rw [pass_of_not_due hdue]
      show (examine c).2.toList ++ (pass ⟨some k⟩ examine _ cs).descriptors = _
      rw [ih]
      cases hc : (examine c).2 with
      | none => simp [hc]
      | some d =>
        have hnext : k - found = k - (found + 1) + 1 := by omega
        simp [hc, hnext]

/-- Whenever a pass is cancelled, what is found is the beginning of what there is to find. -/
theorem exists_descriptors_pass_eq_take (stop : Cancellation)
    (examine : Candidate → List Note × Option Descriptor) (found : Nat) (cs : List Candidate) :
    ∃ n, (pass stop examine found cs).descriptors =
      (cs.filterMap fun c => (examine c).2).take n := by
  obtain ⟨_ | k⟩ := stop
  · refine ⟨(cs.filterMap fun c => (examine c).2).length, ?_⟩
    rw [List.take_length]
    exact descriptors_pass_never examine found cs
  · exact ⟨k - found, descriptors_pass cs k found⟩

/-- A pass is aborted if a candidate is left when it is cancelled. -/
theorem aborted_pass_iff (cs : List Candidate) (k found : Nat) :
    (pass ⟨some (found + k)⟩ examine found cs).aborted = true ↔
      ∃ before rest, cs = before ++ rest ∧ rest ≠ [] ∧ DeliversLast examine k before := by
  induction cs generalizing k found with
  | nil =>
    constructor
    · intro h
      cases h
    · rintro ⟨before, rest, hcs, hrest, -⟩
      exact absurd (List.append_eq_nil_iff.mp hcs.symm).2 hrest
  | cons c cs ih =>
    cases k with
    | zero =>
      rw [Nat.add_zero, pass_of_due (Nat.le_refl found)]
      simp only [true_iff]
      exact ⟨[], c :: cs, rfl, List.cons_ne_nil c cs, deliversLast_zero_iff.mpr rfl⟩
    | succ k =>
      rw [pass_of_not_due (by omega)]
      show (pass _ examine (found + (examine c).2.toList.length) cs).aborted = true ↔ _
      -- The candidate is before the place where the pass is cancelled, whatever it comes to.
      have hsplit : (∃ before rest, c :: cs = before ++ rest ∧ rest ≠ [] ∧
          DeliversLast examine (k + 1) before) ↔ ∃ before rest, cs = before ++ rest ∧ rest ≠ [] ∧
            DeliversLast examine (k + 1) (c :: before) := by
        constructor
        · rintro ⟨before, rest, hcs, hrest, hlast⟩
          cases before with
          | nil => cases hlast.1
          | cons c' before =>
            obtain ⟨rfl, rfl⟩ := List.cons.inj hcs
            exact ⟨before, rest, rfl, hrest, hlast⟩
        · rintro ⟨before, rest, rfl, hrest, hlast⟩
          exact ⟨c :: before, rest, rfl, hrest, hlast⟩
      rw [hsplit]
      cases hc : (examine c).2 with
      | none =>
        simp only [deliversLast_cons_of_none hc]
        exact ih (k + 1) found
      | some d =>
        simp only [deliversLast_cons_of_some hc]
        have hnext : found + (k + 1) = found + 1 + k := by omega
        rw [hnext]
        exact ih k (found + 1)

/-- The log of an aborted pass breaks off; a pass that is not aborted has not been cancelled in
time. -/
theorem pass_eq_or (cs : List Candidate) (k found found' : Nat) :
    ((pass ⟨some k⟩ examine found cs).aborted = true ∧
      ∃ log, log <+: (pass .never examine found' cs).log ∧
        (pass ⟨some k⟩ examine found cs).log = log ++ [.cancelled]) ∨
    ((pass ⟨some k⟩ examine found cs).aborted = false ∧
      pass ⟨some k⟩ examine found cs = pass .never examine found' cs) := by
  induction cs generalizing found found' with
  | nil => exact .inr ⟨rfl, rfl⟩
  | cons c cs ih =>
    by_cases hdue : k ≤ found
    · rw [pass_of_due hdue]
      exact .inl ⟨rfl, [], List.nil_prefix, rfl⟩
    · rw [pass_of_not_due hdue, pass_never_cons]
      obtain ⟨haborted, log, hprefix, hlog⟩ | ⟨haborted, heq⟩ :=
        ih (found + (examine c).2.toList.length) (found' + (examine c).2.toList.length)
      · refine .inl ⟨haborted, (examine c).1 ++ log, ?_, ?_⟩
        · exact (List.prefix_append_right_inj _).mpr hprefix
        · show (examine c).1 ++ (pass ⟨some k⟩ examine _ cs).log = _
          rw [hlog, List.append_assoc]
      · exact .inr ⟨haborted, by rw [heq]⟩

end Extraction

/-! ## 4. Extraction -/

namespace Program

variable (p : Program) (m : Marker) (crateName : String) (k : Nat)

/-- The cancellation after so many descriptors is what a listener does that counts them. -/
theorem extractTo_countdown_eq :
    (p.extractTo m crateName (Receipt.countdown k) (Receipt.start k)).1 =
        p.extract m crateName ⟨some k⟩ ∧
      (p.extractTo m crateName (Receipt.countdown k) (Receipt.start k)).2.received =
        (p.extract m crateName ⟨some k⟩).descriptors := by
  have hstart : (Receipt.start k).isCancelled = decide (k ≤ (Receipt.start k).received.length) := by
    cases k <;> rfl
  have hpass : (Extraction.passTo (Receipt.countdown k) (Extraction.examine p.scopes m crateName)
      (Receipt.start k) p.liveCandidates).1 =
        Extraction.pass ⟨some k⟩ (Extraction.examine p.scopes m crateName) 0 p.liveCandidates ∧ _ :=
    Extraction.passTo_countdown p.liveCandidates hstart
  unfold extractTo extract
  by_cases hm : p.mentions m.crateName = true
  · rw [if_pos hm, if_pos hm]
    exact ⟨congrArg (Extraction.withNotes _) hpass.1, hpass.2⟩
  · rw [if_neg hm, if_neg hm]
    exact ⟨rfl, rfl⟩

theorem aborted_extract_iff : (p.extract m crateName ⟨some k⟩).aborted = true ↔
    p.mentions m.crateName = true ∧ ∃ before rest, p.liveCandidates = before ++ rest ∧ rest ≠ [] ∧
      Extraction.DeliversLast (Extraction.examine p.scopes m crateName) k before := by
  have hpass : (Extraction.pass ⟨some (0 + k)⟩ (Extraction.examine p.scopes m crateName) 0
      p.liveCandidates).aborted = true ↔ _ := Extraction.aborted_pass_iff p.liveCandidates k 0
  rw [Nat.zero_add] at hpass
  unfold extract
  by_cases hm : p.mentions m.crateName = true
  · rw [if_pos hm]
    simp only [hm, true_and]
    exact hpass
  · rw [if_neg hm]
    simp [hm]

/-- A pass that a listener cancels on receiving the `k`-th descriptor finds the first `k` of all
descriptors, if there are so many, and these are what the listener has received. -/
theorem extractTo_countdown :
    (p.extractTo m crateName (Receipt.countdown k) (Receipt.start k)).1 =
        p.extract m crateName ⟨some k⟩ ∧
      (p.extractTo m crateName (Receipt.countdown k) (Receipt.start k)).2.received =
        (p.extract m crateName ⟨some k⟩).descriptors ∧
      (p.extract m crateName ⟨some k⟩).descriptors =
        (p.extract m crateName .never).descriptors.take k ∧
      ((p.extract m crateName ⟨some k⟩).aborted = true ↔ p.mentions m.crateName = true ∧
        ∃ before rest, p.liveCandidates = before ++ rest ∧ rest ≠ [] ∧
          Extraction.DeliversLast (Extraction.examine p.scopes m crateName) k before) ∧
      if (p.extract m crateName ⟨some k⟩).aborted = true then
        ∃ log, log <+: (p.extract m crateName .never).log ∧
          (p.extract m crateName ⟨some k⟩).log = log ++ [.cancelled]
      else p.extract m crateName ⟨some k⟩ = p.extract m crateName .never := by
  obtain ⟨heq, hreceived⟩ := p.extractTo_countdown_eq m crateName k
  refine ⟨heq, hreceived, ?_, p.aborted_extract_iff m crateName k, ?_⟩
  · by_cases hm : p.mentions m.crateName = true
    · rw [descriptors_extract hm]
      unfold extract
      rw [if_pos hm]
      exact Extraction.descriptors_pass p.liveCandidates k 0
    · unfold extract
      rw [if_neg hm, if_neg hm]
      simp
  · unfold extract
    by_cases hm : p.mentions m.crateName = true
    · rw [if_pos hm, if_pos hm]
      -- Either the pass was cancelled, with a log that breaks off, or it is the one that never is.
      obtain ⟨haborted, log, hprefix, hlog⟩ | ⟨haborted, hpass⟩ :=
        Extraction.pass_eq_or p.liveCandidates k 0 0
      · rw [if_pos (by exact haborted)]
        refine ⟨_, (List.prefix_append_right_inj _).mpr hprefix, ?_⟩
        show _ ++ (Extraction.pass _ _ 0 p.liveCandidates).log = _
        rw [hlog, List.append_assoc]
      · rw [if_neg (by simp [Extraction.withNotes, haborted]), hpass]
    · rw [if_neg hm, if_neg hm, if_neg (by simp)]

end Program

end EnumCatalog
