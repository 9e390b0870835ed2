/- # Reports that are read back

A variable is printed as `VAR::name:startLine:startCol:endLine:endCol:type`, with fixed
words for a column that is not known, and a symbol as `TYPE::name: definition` or
`FUNC::name: definition` (`Variable.line`, `Symbol.line`). A report may hold other lines
too: blank ones, and ones without a tag.

Reading undoes printing. A printed line says what was printed
(`readLine?_variable`, `readLine?_symbol`), and since every line is read on its own the
variables and the symbols of a report come out in their order, whatever stands between
them and whichever breaks join the lines (`SymbolReport.read_printed`).

Key definitions: `Variable.line`, `Symbol.line`, `Variable.Printable`, `Symbol.Printable`,
`ReportLine`.
Key theorems: `readVariable?_fields`, `readSymbol?_body`, `SymbolReport.read_printed`.
-/
import RenServer.Proofs.Text.ReadBack
import RenServer.Report.Symbols

namespace RenServer

open Text

/-! ### Printing -/

/-- A column in decimal, or the words for a column that is not known. -/
def column (unknown : List Char) : Option Int → List Char
  | some n => numeral n
  | none => unknown

/-- The fields of a variable, in the order of the report. -/
def Variable.fields (unknown : List Char) (v : Variable) : List (List Char) :=
  [v.name.toList, numeral v.scope.startLine, column unknown v.scope.startCol,
    numeral v.scope.endLine, column unknown v.scope.endCol, v.typeName.toList]

/-- The line that reports a variable. -/
def Variable.line (unknown : List Char) (v : Variable) : List Char :=
  variableTag ++ [':'].intercalate (v.fields unknown)

/-- What follows the tag in the line of a symbol. -/
def Symbol.body (s : Symbol) : List Char :=
  s.name.toList ++ ([':', ' '] ++ s.definition.toList)

/-- The line that reports a symbol. -/
def Symbol.line (s : Symbol) : List Char := s.kind.tag ++ s.body

/-- Words for an unknown column: they are no number, and they stay within a field. -/
structure NoNumber (unknown : List Char) : Prop where
  notRead : numberIn? unknown = none
  colon : ':' ∉ unknown
  unbroken : Unbroken unknown

/-- A variable that its line can show: name and type stay within their fields, and the
numbers are within the limit. -/
structure Variable.Printable (v : Variable) : Prop where
  name : ':' ∉ v.name.toList ∧ Unbroken v.name.toList
  typeName : ':' ∉ v.typeName.toList ∧ Unbroken v.typeName.toList
  startLine : isWritable v.scope.startLine = true
  endLine : isWritable v.scope.endLine = true
  startCol : ∀ n, v.scope.startCol = some n → isWritable n = true
  endCol : ∀ n, v.scope.endCol = some n → isWritable n = true

/-- A text of a symbol that survives: something, with no blanks around it, on one line. -/
structure Kept (s : List Char) : Prop where
  something : s ≠ []
  trimmed : trim s = s
  unbroken : Unbroken s

/-- A symbol that its line can show: the first colon with a space ends the name. -/
structure Symbol.Printable (s : Symbol) : Prop where
  name : Kept s.name.toList
  definition : Kept s.definition.toList
  separator : ¬ [':', ' '] <:+: s.name.toList

/-! ### One line -/

theorem numberIn?_numeral {n : Int} (h : isWritable n = true) : numberIn? (numeral n) = some n := by
  rw [numberIn?, trim_of_none (isBlank_numeral n), integer?_numeral h]

/-- A column is read back, known or not. -/
theorem numberIn?_column {unknown : List Char} (hu : NoNumber unknown) {col : Option Int}
    (h : ∀ n, col = some n → isWritable n = true) : numberIn? (column unknown col) = col := by
  cases col with
  | none => exact hu.notRead
  | some n => exact numberIn?_numeral (h n rfl)

theorem colon_notMem_column {unknown : List Char} (hu : NoNumber unknown) (col : Option Int) :
    ':' ∉ column unknown col := by
  cases col with
  | none => exact hu.colon
  | some n => exact colon_notMem_numeral n

theorem unbroken_column {unknown : List Char} (hu : NoNumber unknown) (col : Option Int) :
    Unbroken (column unknown col) := by
  cases col with
  | none => exact hu.unbroken
  | some n => exact unbroken_numeral n

section Variable

variable {unknown : List Char} {v : Variable}

theorem Variable.Printable.colon_notMem (h : v.Printable) (hu : NoNumber unknown) :
    ∀ part ∈ v.fields unknown, ':' ∉ part := by
  simp only [Variable.fields, List.forall_mem_cons]
  exact ⟨h.name.1, colon_notMem_numeral _, colon_notMem_column hu _, colon_notMem_numeral _,
    colon_notMem_column hu _, h.typeName.1, fun _ hm => absurd hm List.not_mem_nil⟩

/-- **The fields of a variable give the variable back.** -/
theorem readVariable?_fields (h : v.Printable) (hu : NoNumber unknown) :
    readVariable? ([':'].intercalate (v.fields unknown)) = some v := by
  have hfields : fields ':' ([':'].intercalate (v.fields unknown)) = v.fields unknown :=
    fields_intercalate (List.cons_ne_nil _ _) (h.colon_notMem hu)
  rw [readVariable?, hfields]
  simp only [Variable.fields, numberIn?_numeral h.startLine, numberIn?_numeral h.endLine,
    numberIn?_column hu h.startCol, numberIn?_column hu h.endCol, String.ofList_toList]
  rfl

/-- A text put together from fields on one line, with colons, stays on it. -/
theorem unbroken_intercalate {parts : List (List Char)} (h : ∀ part ∈ parts, Unbroken part) :
    Unbroken ([':'].intercalate parts) := by
  induction parts with
  | nil => exact fun _ hc => absurd hc List.not_mem_nil
  | cons part parts ih =>
    have hpart := h part List.mem_cons_self
    have hrest := ih fun x hx => h x (List.mem_cons_of_mem part hx)
    cases parts with
    | nil => rwa [List.intercalate_singleton]
    | cons next parts =>
      rw [List.intercalate_cons_cons, List.append_assoc]
      exact hpart.append (hrest.cons rfl)

theorem Variable.Printable.unbroken (h : v.Printable) (hu : NoNumber unknown) :
    Unbroken (v.line unknown) := by
  have htag : Unbroken variableTag := by decide
  refine htag.append (unbroken_intercalate ?_)
  simp only [Variable.fields, List.forall_mem_cons]
  exact ⟨h.name.2, unbroken_numeral _, unbroken_column hu _, unbroken_numeral _,
    unbroken_column hu _, h.typeName.2, fun _ hm => absurd hm List.not_mem_nil⟩

/-- The line of a variable says the variable. -/
theorem readLine?_variable (h : v.Printable) (hu : NoNumber unknown) :
    readLine? (v.line unknown) = some (.variable v) := by
  have hblank : (v.line unknown).all isBlank = false := rfl
  have htag : after? variableTag (v.line unknown) = some ([':'].intercalate (v.fields unknown)) :=
    after?_eq_some_iff.mpr rfl
  rw [readLine?, hblank, readEntry, htag]
  simp only [readVariable?_fields h hu]
  rfl

end Variable

section Symbol

variable {s : Symbol}

/-- **What follows the tag of a symbol gives the symbol back.** -/
theorem readSymbol?_body (h : s.Printable) : readSymbol? s.kind s.body = some s := by
  have hcut : cut? [':', ' '] s.body = some (s.name.toList, s.definition.toList) :=
    cut?_separated (by decide) h.separator _
  simp only [readSymbol?, hcut, Option.bind_eq_bind, Option.bind_some, h.name.trimmed,
    h.definition.trimmed, List.isEmpty_iff, h.name.something, h.definition.something,
    Bool.or_eq_true, or_self, if_false, String.ofList_toList]

theorem Symbol.Printable.unbroken (h : s.Printable) : Unbroken s.line := by
  have htag : ∀ kind : SymbolKind, Unbroken kind.tag := by
    intro kind
    cases kind <;> decide
  have hsep : Unbroken [':', ' '] := by decide
  exact (htag s.kind).append (h.name.unbroken.append (hsep.append h.definition.unbroken))

/-- The line of a symbol says the symbol. -/
theorem readLine?_symbol (h : s.Printable) : readLine? s.line = some (.symbol s) := by
  have hread := readSymbol?_body h
  obtain ⟨kind, name, definition⟩ := s
  cases kind with
  | typeDef =>
    -- the tags differ in their first letters
    have hbody : readLine? (SymbolKind.typeDef.tag ++ Symbol.body ⟨.typeDef, name, definition⟩) =
        some (symbolEntry .typeDef _ (Symbol.body ⟨.typeDef, name, definition⟩)) := rfl
    rw [Symbol.line, hbody, symbolEntry, hread]
  | function =>
    have hbody : readLine? (SymbolKind.function.tag ++ Symbol.body ⟨.function, name, definition⟩) =
        some (symbolEntry .function _ (Symbol.body ⟨.function, name, definition⟩)) := rfl
    rw [Symbol.line, hbody, symbolEntry, hread]

end Symbol

/-! ### Whole reports -/

/-- The tags of a report. -/
def reportTags : List (List Char) :=
  [variableTag, SymbolKind.typeDef.tag, SymbolKind.function.tag]

/-- A line of a report: a variable, a symbol, or something else. -/
inductive ReportLine where
  | var (v : Variable)
  | symbol (s : Symbol)
  | other (line : List Char)

namespace ReportLine

/-- The text of a line. -/
def text (unknown : List Char) : ReportLine → List Char
  | .var v => v.line unknown
  | .symbol s => s.line
  | .other line => line

/-- A line as it may stand in a report. Anything may stand between the variables and the
symbols that is blank or carries no tag. -/
def Printable : ReportLine → Prop
  | .var v => v.Printable
  | .symbol s => s.Printable
  | .other line => Unbroken line ∧ (line.all isBlank = true ∨ ∀ tag ∈ reportTags, ¬ tag <+: line)

def var? : ReportLine → Option Variable
  | .var v => some v
  | _ => none

def symbol? : ReportLine → Option Symbol
  | .symbol s => some s
  | _ => none

theorem Printable.unbroken {unknown : List Char} (hu : NoNumber unknown) {l : ReportLine}
    (h : l.Printable) : Unbroken (l.text unknown) := by
  cases l with
  | var v => exact Variable.Printable.unbroken h hu
  | symbol s => exact Symbol.Printable.unbroken h
  | other line => exact h.1

/-- A line that is blank or carries no tag says neither a variable nor a symbol. -/
theorem readLine?_other {line : List Char}
    (h : line.all isBlank = true ∨ ∀ tag ∈ reportTags, ¬ tag <+: line) :
    (readLine? line).bind Entry.variable? = none ∧ (readLine? line).bind Entry.symbol? = none := by
  rcases h with hblank | htags
  · simp [readLine?, hblank]
  · have hnone : ∀ tag ∈ reportTags, after? tag line = none := fun tag ht =>
      after?_eq_none_iff.mpr (htags tag ht)
    simp only [reportTags, List.forall_mem_cons] at hnone
    obtain ⟨hv, ht, hf, -⟩ := hnone
    have hentry : readEntry line = .skipped (.untagged (String.ofList line)) := by
      simp only [readEntry, hv, ht, hf]
    rw [readLine?, hentry]
    split <;> exact ⟨rfl, rfl⟩

/-- What a line of a report says about variables and symbols. -/
theorem readLine?_text {unknown : List Char} (hu : NoNumber unknown) {l : ReportLine}
    (h : l.Printable) :
    (readLine? (l.text unknown)).bind Entry.variable? = l.var? ∧
      (readLine? (l.text unknown)).bind Entry.symbol? = l.symbol? := by
  cases l with
  | var v =>
    rw [text, readLine?_variable h hu]
    exact ⟨rfl, rfl⟩
  | symbol s =>
    rw [text, readLine?_symbol h]
    exact ⟨rfl, rfl⟩
  | other line => exact readLine?_other h.2

end ReportLine

/-- **Reading a report undoes printing it.** The report of lines that were printed and
joined by any breaks holds exactly the printed variables and the printed symbols, each in
their order. -/
theorem SymbolReport.read_printed {unknown : List Char} (hu : NoNumber unknown)
    {ls : List ReportLine} (hls : ∀ l ∈ ls, l.Printable) {text : String}
    (h : Joined (ls.map (·.text unknown)) text.toList) :
    (SymbolReport.read text).symbols = ls.filterMap ReportLine.symbol? ∧
      (SymbolReport.read text).vars = ls.filterMap ReportLine.var? := by
  have hunbroken : ∀ line ∈ ls.map (·.text unknown), Unbroken line := by
    intro line hm
    obtain ⟨l, hl, rfl⟩ := List.mem_map.mp hm
    exact ReportLine.Printable.unbroken hu (hls l hl)
  have hentries : entries text.toList = ls.filterMap fun l => readLine? (l.text unknown) := by
    rw [entries, h.filterMap_lines rfl hunbroken, List.filterMap_map]
    rfl
  have hpart : ∀ {α : Type} {part : Entry → Option α} {said : ReportLine → Option α},
      (∀ l ∈ ls, (readLine? (l.text unknown)).bind part = said l) →
      (entries text.toList).filterMap part = ls.filterMap said := by
    intro α part said hsaid
    rw [hentries, List.filterMap_filterMap]
    exact List.filterMap_congr hsaid
  exact ⟨hpart fun l hl => (ReportLine.readLine?_text hu (hls l hl)).2,
    hpart fun l hl => (ReportLine.readLine?_text hu (hls l hl)).1⟩

/-- A report whose second line is lost between `\r` and `\n`, with colons in the names of
its symbols and a column that is not known. -/
def mixedReport : List ReportLine :=
  [.var ⟨"x", "list of int", ⟨1, none, 12, some (-3)⟩⟩, .other [],
    .symbol ⟨.typeDef, "P::Q", "(x: int)"⟩, .other "note: VAR::".toList,
    .symbol ⟨.function, "f:", "() -> P: Q"⟩]

theorem SymbolReport.read_mixed :
    let text :=
      "VAR::x:1:?:12:-3:list of int\r\nTYPE::P::Q: (x: int)\rnote: VAR::\r\nFUNC::f:: () -> P: Q"
    NoNumber ['?'] ∧ (∀ l ∈ mixedReport, l.Printable) ∧
      Joined (mixedReport.map (·.text ['?'])) text.toList ∧
      (SymbolReport.read text).symbols =
        [⟨.typeDef, "P::Q", "(x: int)"⟩, ⟨.function, "f:", "() -> P: Q"⟩] ∧
      (SymbolReport.read text).vars = [⟨"x", "list of int", ⟨1, none, 12, some (-3)⟩⟩] := by
  intro text
  have hu : NoNumber ['?'] := ⟨by decide, by decide, by decide⟩
  have hx : Variable.Printable ⟨"x", "list of int", ⟨1, none, 12, some (-3)⟩⟩ := by
    refine ⟨by decide, by decide, ?_, ?_, ?_, ?_⟩
    · decide +kernel
    · decide +kernel
    · rintro _ ⟨⟩
    · rintro _ ⟨⟩
      decide +kernel
  have hp : Symbol.Printable ⟨.typeDef, "P::Q", "(x: int)"⟩ :=
    ⟨⟨by decide, by decide, by decide⟩, ⟨by decide, by decide, by decide⟩, by decide⟩
  have hf : Symbol.Printable ⟨.function, "f:", "() -> P: Q"⟩ :=
    ⟨⟨by decide, by decide, by decide⟩, ⟨by decide, by decide, by decide⟩, by decide⟩
  have hls : ∀ l ∈ mixedReport, l.Printable := by
    simp only [mixedReport, List.forall_mem_cons]
    exact ⟨hx, ⟨by decide, by decide⟩, hp, ⟨by decide, by decide⟩, hf, by simp⟩
  have hlines : mixedReport.map (·.text ['?']) =
      ["VAR::x:1:?:12:-3:list of int".toList, [], "TYPE::P::Q: (x: int)".toList,
        "note: VAR::".toList, "FUNC::f:: () -> P: Q".toList] := by decide
  have htext : text.toList = "VAR::x:1:?:12:-3:list of int".toList ++ (['\r'] ++ ([] ++ (['\n'] ++
      ("TYPE::P::Q: (x: int)".toList ++ (['\r'] ++ ("note: VAR::".toList ++
        (['\r', '\n'] ++ "FUNC::f:: () -> P: Q".toList))))))) := by decide
  have h : Joined (mixedReport.map (·.text ['?'])) text.toList := by
    rw [hlines, htext]
    exact .cons _ (.single '\r' rfl) (.cons [] (.single '\n' rfl) (.cons _ (.single '\r' rfl)
      (.cons _ .crlf (.last _))))
  obtain ⟨hsymbols, hvars⟩ := SymbolReport.read_printed hu hls h
  exact ⟨hu, hls, h, hsymbols, hvars⟩

end RenServer
