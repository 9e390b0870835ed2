/- # Output is read line by line

No reader of the compiler's output takes anything from an empty line, and two texts with a
newline between them keep their other lines. The report on both texts is therefore the two
reports one after the other, and their findings are put together in the same way, with the
fault of the first text before that of the second. Each line that is not blank adds exactly
one entry to a report, be it a symbol, a variable or a skip (`SymbolReport.length_read`).

Key theorems: `entries_append`, `readFindings_append`, `SymbolReport.length_read`,
`read_line_by_line`.
-/
import RenServer.Proofs.Text.Lines
import RenServer.Report.Findings
import RenServer.Report.Symbols

namespace RenServer

open Text

/-! ### Reports -/

theorem entries_append {brk : List Char} (hb : LineBreak brk) (a b : List Char) :
    entries (a ++ (brk ++ b)) = entries a ++ entries b := filterMap_lines_append rfl hb a b

/-- An entry is a symbol, a variable or a skip, and only one of them. -/
theorem SymbolReport.length_ofEntries (es : List Entry) :
    (ofEntries es).symbols.length + (ofEntries es).vars.length + (ofEntries es).skipped.length =
      es.length := by
  induction es with
  | nil => rfl
  | cons e es ih =>
    unfold ofEntries at ih ⊢
    cases e with
    | _ =>
      simp only [List.filterMap_cons, Entry.symbol?, Entry.variable?, Entry.skipped?,
        List.length_cons] at ih ⊢
      omega

/-- **Every line that is not blank adds one entry to the report.** -/
theorem SymbolReport.length_read (text : String) :
    (read text).symbols.length + (read text).vars.length + (read text).skipped.length =
      (lines text.toList).countP fun line => !line.all isBlank := by
  have hsome : (fun line => (readLine? line).isSome) = fun line => !line.all isBlank := by
    funext line
    unfold readLine?
    split <;> simp_all
  rw [read, length_ofEntries, entries, List.length_filterMap_eq_countP, hsome]

/-! ### Findings -/

/-- Findings are made of one list of details and then of another. -/
theorem readFindings_append {brk : String} (hb : LineBreak brk.toList) (a b : String) :
    readFindings (a ++ brk ++ b) =
      (do
        let fs ← readFindings a
        let gs ← readFindings b
        return fs ++ gs) := by
  have htext : (a ++ brk ++ b).toList = a.toList ++ (brk.toList ++ b.toList) := by simp
  rw [readFindings, htext, filterMap_lines_append rfl hb, List.mapM_append]
  rfl

/-! ### Whole texts -/

/-- **Both readers work line by line and account for every line.** Whatever breaks two texts
begin and end with, a newline between them leaves what is read off each of them as it is:

* the symbols, the variables and the skips of the two reports stand one after the other;
* so do the findings, unless one of the texts has a fault, and then the first fault counts;
* a report has as many symbols, variables and skips together as its text has lines that are
  not blank. -/
theorem read_line_by_line :
    (∀ a b : String,
      (SymbolReport.read (a ++ "\n" ++ b)).symbols =
          (SymbolReport.read a).symbols ++ (SymbolReport.read b).symbols ∧
        (SymbolReport.read (a ++ "\n" ++ b)).vars =
          (SymbolReport.read a).vars ++ (SymbolReport.read b).vars ∧
        (SymbolReport.read (a ++ "\n" ++ b)).skipped =
          (SymbolReport.read a).skipped ++ (SymbolReport.read b).skipped) ∧
    (∀ a b : String,
      readFindings (a ++ "\n" ++ b) =
        match readFindings a, readFindings b with
        | .error t, _ => .error t
        | .ok _, .error t => .error t
        | .ok fs, .ok gs => .ok (fs ++ gs)) ∧
    ∀ text : String,
      (SymbolReport.read text).symbols.length + (SymbolReport.read text).vars.length +
          (SymbolReport.read text).skipped.length =
        (lines text.toList).countP fun line => !line.all isBlank := by
  have hnewline : LineBreak "\n".toList := .single '\n' rfl
  refine ⟨fun a b => ?_, fun a b => ?_, SymbolReport.length_read⟩
  · have htext : (a ++ "\n" ++ b).toList = a.toList ++ ("\n".toList ++ b.toList) := by simp
    unfold SymbolReport.read
    rw [htext, entries_append hnewline]
    exact ⟨List.filterMap_append, List.filterMap_append, List.filterMap_append⟩
  · rw [readFindings_append hnewline]
    cases readFindings a with
    | error t => rfl
    | ok fs =>
      cases readFindings b with
      | error t => rfl
      | ok gs => rfl

example : SymbolReport.read "TYPE::A: x\r\n VAR::v:1\n \rFUNC::f: y" =
    ⟨[⟨.typeDef, "A", "x"⟩, ⟨.function, "f", "y"⟩], [], [.variable "VAR::v:1"]⟩ := by decide +kernel

end RenServer
