import EnumCatalog.Proofs.ReadingBack
import EnumCatalog.Proofs.WholeLines

/-!
# The log behind the artifact

The log of a pass is shown as comments behind the code. Whatever its lines quote, the code is the
same with it and without: the artifact ends its last line, so the comments start on a line of their
own, and each of them ends where its line does.
-/

set_option autoImplicit false

namespace EnumCatalog.Artifact

open Layout (Doc Writes)
open Lexer (EndsLine)
open Syntax (NamePath Path)

/-! ## 1. The last line of the code -/

theorem endsLine_append {s t : String} (h : EndsLine t.toList) : EndsLine (s ++ t).toList := by
  rw [EndsLine, String.toList_append, List.getLast?_append, h, Option.some_or]

theorem endsLine_render (first indent : Nat) (ds : List Doc) :
    EndsLine (Doc.render first indent ds).toList :=
  endsLine_append rfl

theorem endsLine_functionText (head : List Doc) (statements : List (List Doc)) :
    EndsLine (functionText head statements).toList := by
  unfold functionText
  split
  · exact endsLine_render _ _ _
  · exact endsLine_append rfl

theorem endsLine_text (a : Artifact) : EndsLine a.text.toList :=
  endsLine_append (endsLine_functionText _ _)

/-! ## 2. The lines of the log -/

/-- The comments that show a log, without the ends of their lines. -/
def logComments (log : List String) : List String :=
  "// pgenum-build diagnostics:" :: log.map fun line => "//   " ++ Text.commented line

theorem diagnosticsText_eq (log : List String) :
    diagnosticsText log = "\n" ++ linesText (logComments log) := by
  rw [diagnosticsText, List.cons_append, linesText, List.map_cons, String.join_cons]
  rfl

/-- Every comment starts as a plain comment and holds no control character. -/
theorem logComments_plain {log : List String} {comment : String} (h : comment ∈ logComments log) :
    (∃ rest, comment = "// " ++ rest) ∧ ∀ c ∈ comment.toList, Text.isControl c = false := by
  rcases List.mem_cons.mp h with rfl | h
  · exact ⟨⟨"pgenum-build diagnostics:", rfl⟩, Lexer.forall_eq_false rfl⟩
  · obtain ⟨line, -, rfl⟩ := List.mem_map.mp h
    refine ⟨⟨"  " ++ Text.commented line, ?_⟩, fun c hc => ?_⟩
    · rw [← String.append_assoc]
      rfl
    · rw [String.toList_append, List.mem_append] at hc
      rcases hc with hc | hc
      · exact Lexer.forall_eq_false (p := Text.isControl) rfl c hc
      · exact Text.not_isControl_of_mem_commented hc

/-- What has tokens and ends its last line has the same tokens with the log behind it. -/
theorem tokens?_append_diagnosticsText {s : String} {ts : List Token} (hends : EndsLine s.toList)
    (h : Lexer.tokens? s = some ts) (log : List String) :
    Lexer.tokens? (s ++ diagnosticsText log) = some ts := by
  obtain ⟨ps, htext, hps⟩ := writes_diagnosticsText log
  have hnone := hps.lexemes []
  rw [List.append_nil] at hnone
  have hread := Lexer.tokens?_append hends h (by simpa using hps.apart [] rfl) hnone
  rwa [← htext, String.ofList_toList] at hread

/-! ## 3. The artifact with the log and without -/

section

variable (ds : List Descriptor) (runtime : Path) (log : List String)

theorem render_some : render ds runtime (some log) =
    (render ds runtime none).map (· ++ diagnosticsText log) := by
  unfold render
  cases ofDescriptors runtime ds with
  | error e => rfl
  | ok a =>
    show Except.ok (a.text ++ diagnosticsText log) = .ok (a.text ++ "" ++ diagnosticsText log)
    rw [String.append_empty]

theorem endsLine_of_render {text : String} (h : render ds runtime none = .ok text) :
    EndsLine text.toList := by
  unfold render at h
  cases hartifact : ofDescriptors runtime ds with
  | error e =>
    rw [hartifact] at h
    cases h
  | ok a =>
    rw [hartifact] at h
    cases h
    show EndsLine (a.text ++ "").toList
    rw [String.append_empty]
    exact endsLine_text a

end

end EnumCatalog.Artifact
