/- # What a project file can do to the choice

The compiler in use is the first of four that says something: the client's, the project
file's, the environment's and the default. The file has a say if its bytes are those of a
text (`Utf8.encode`), the text is a document, and the document has a table `compiler`
(`FileChooses`). A file that is missing or malformed is passed over.

Some do more harm, and no compiler is found at all unless the client has chosen one
(`Blocked`). The system may refuse to look for the file (`Environment.Refuses`): its path or a
name in it is too long, or nothing may be looked up in a directory on the way. Or the file is
there and cannot be read (`Unreadable`): its bytes are those of no text, or where a value is due
a number has too many digits or there is no room left. These are the only ways
(`resolve_unless_blocked`), whatever the system allows and however much room there is. A file
that cannot be read gives itself away (`Suspect`): it is no text, or a long run of digits stands
in it, or opening brackets enough to use up the room.

Key definitions: `Environment.Refuses`, `Unreadable`, `Suspect`, `CompilerChoice.FileChooses`,
`CompilerChoice.Blocked`.
Key theorems: `Environment.lookUp_eq_error_iff`, `exists_chosenByBytes_error_iff`,
`suspect_of_unreadable`, `projectCompiler_eq_ok_iff`, `resolve_unless_blocked`.
-/
import RenServer.CompilerChoice
import RenServer.Proofs.Text.Encoded
import RenServer.Proofs.Toml.Refused

namespace RenServer

open Text

/-! ### Line ends -/

section Breaks

variable {run s : List Char}

theorem prefix_of_unifyBreaks (hrun : '\n' ∉ run) (h : run <+: unifyBreaks s) : run <+: s := by
  fun_induction unifyBreaks s generalizing run with
  | case1 => exact h
  | case2 rest ih =>
    obtain rfl | ⟨t, rfl, ht⟩ := List.prefix_cons_iff.1 h
    · exact List.nil_prefix
    · simp at hrun
  | case3 c rest hnot ih =>
    obtain rfl | ⟨t, rfl, ht⟩ := List.prefix_cons_iff.1 h
    · exact List.nil_prefix
    · rw [List.mem_cons, not_or] at hrun
      by_cases hc : c = '\r'
      · rw [if_pos hc] at hrun
        exact absurd rfl hrun.1
      · rw [if_neg hc]
        exact List.cons_prefix_cons.2 ⟨rfl, ih hrun.2 ht⟩

theorem infix_of_unifyBreaks (hrun : '\n' ∉ run) (h : run <:+: unifyBreaks s) : run <:+: s := by
  fun_induction unifyBreaks s with
  | case1 => exact h
  | case2 rest ih =>
    obtain hprefix | hinfix := List.infix_cons_iff.1 h
    · obtain rfl | ⟨t, rfl, -⟩ := List.prefix_cons_iff.1 hprefix
      · exact List.nil_infix
      · simp at hrun
    · exact (ih hinfix).trans (List.suffix_append ['\r', '\n'] rest).isInfix
  | case3 c rest hnot ih =>
    obtain hprefix | hinfix := List.infix_cons_iff.1 h
    · have hs : unifyBreaks (c :: rest) = (if c = '\r' then '\n' else c) :: unifyBreaks rest := by
        rw [unifyBreaks]
        exact hnot
      exact (prefix_of_unifyBreaks hrun (hs ▸ hprefix)).isInfix
    · exact (ih hinfix).trans (List.suffix_cons c rest).isInfix

theorem countP_unifyBreaks (s : List Char) :
    (unifyBreaks s).countP Toml.isOpening = s.countP Toml.isOpening := by
  fun_induction unifyBreaks s with
  | case1 => rfl
  | case2 rest ih => simp [ih, Toml.isOpening]
  | case3 c rest hnot ih =>
    by_cases hc : c = '\r'
    · simp [ih, hc, Toml.isOpening]
    · simp [List.countP_cons, ih, hc]

end Breaks

/-! ### Looking for the file -/

namespace Environment

variable {env : Environment}

/-- To follow a component is to be in a directory, and to be refused there or to go on. -/
theorem follow_cons_eq_iff {place : Location} {component : List Char} {rest : List (List Char)}
    {result : Except Refusal (Option FileEntry)} (hresult : result ≠ .ok none) :
    env.follow place (component :: rest) = result ↔
      env.at? place = some .directory ∧
        ((∃ refusal, env.refusal? place component = some refusal ∧ result = .error refusal) ∨
          env.refusal? place component = none ∧
            env.follow (enter place component) rest = result) := by
  rw [follow]
  by_cases hplace : env.at? place = some .directory
  · rw [if_pos hplace]
    cases env.refusal? place component with
    | some refusal => simp [hplace, eq_comm]
    | none => simp [hplace]
  · rw [if_neg hplace]
    simp [hplace, hresult.symm]

/-- **Following fails at the first component that is refused.** -/
theorem follow_eq_error_iff {place : Location} {components : List (List Char)}
    {refusal : Refusal} :
    env.follow place components = .error refusal ↔
      ∃ before component after, components = before ++ component :: after ∧
        env.follow place before = .ok (some .directory) ∧
        env.refusal? (before.foldl enter place) component = some refusal := by
  induction components generalizing place with
  | nil => simp [follow]
  | cons first rest ih =>
    rw [follow_cons_eq_iff (by simp), ih]
    constructor
    · rintro ⟨hplace, ⟨_, hrefusal, ⟨⟩⟩ |
        ⟨hfirst, before, component, after, rfl, hbefore, hrefusal⟩⟩
      · exact ⟨[], first, rest, rfl, congrArg _ hplace, hrefusal⟩
      · refine ⟨first :: before, component, after, rfl, ?_, hrefusal⟩
        exact (follow_cons_eq_iff (by simp)).2 ⟨hplace, .inr ⟨hfirst, hbefore⟩⟩
    · rintro ⟨before, component, after, hcomponents, hbefore, hrefusal⟩
      cases before with
      | nil =>
        obtain ⟨rfl, rfl⟩ := List.cons.inj hcomponents
        exact ⟨Except.ok.inj hbefore, .inl ⟨refusal, hrefusal, rfl⟩⟩
      | cons second before =>
        obtain ⟨rfl, rfl⟩ := List.cons.inj hcomponents
        obtain ⟨hplace, ⟨_, _, ⟨⟩⟩ | ⟨hfirst, hbefore⟩⟩ :=
          (follow_cons_eq_iff (by simp)).1 hbefore
        exact ⟨hplace, .inr ⟨hfirst, before, component, after, rfl, hbefore, hrefusal⟩⟩

/-- The system refuses to look a path up: the path is too long, or one of its components cannot
be followed from the directory that those before it lead to. -/
def Refuses (env : Environment) (path : List Char) (refusal : Refusal) : Prop :=
  '\x00' ∉ path ∧
    (env.pathLimit < byteCount path ∧ refusal = .nameTooLong ∨
      byteCount path ≤ env.pathLimit ∧
        ∃ before component after, Path.names path = before ++ component :: after ∧
          env.follow (env.origin path) before = .ok (some .directory) ∧
          env.refusal? (before.foldl enter (env.origin path)) component = some refusal)

theorem lookUp_eq_error_iff {path : List Char} {refusal : Refusal} :
    env.lookUp path = .error refusal ↔ env.Refuses path refusal := by
  unfold lookUp Refuses
  by_cases hnull : '\x00' ∈ path
  · simp [hnull]
  by_cases hlength : env.pathLimit < byteCount path
  · simp [hnull, hlength, Nat.not_le_of_lt hlength, eq_comm]
  · simp only [List.contains_iff_mem, hnull, hlength, if_false, not_false_eq_true,
      true_and, false_and, false_or, Nat.le_of_not_lt hlength]
    exact follow_eq_error_iff

end Environment

/-! ### The bytes of the file -/

/-- The bytes are those of no text, or of one that is refused with so much room. -/
def Unreadable (room : Nat) (bytes : List UInt8) : Prop :=
  (∀ text, bytes ≠ Utf8.encode text) ∨
    ∃ text, bytes = Utf8.encode text ∧ Toml.Refused room (unifyBreaks text.toList)

/-- The bytes are those of no text, or of one with a long run of digits or with opening brackets
enough to use up the room. -/
def Suspect (room : Nat) (bytes : List UInt8) : Prop :=
  (∀ text, bytes ≠ Utf8.encode text) ∨
    ∃ text, bytes = Utf8.encode text ∧
      ((∃ run, run <:+: text.toList ∧ Toml.LongNumeral run) ∨
        room ≤ 3 * text.toList.countP Toml.isOpening)

theorem Toml.LongNumeral.newline_notMem {run : List Char} (h : LongNumeral run) : '\n' ∉ run := by
  intro hmem
  obtain hdigit | hscore := h.1 _ hmem
  · revert hdigit
    decide
  · revert hscore
    decide

theorem suspect_of_unreadable {room : Nat} {bytes : List UInt8} (h : Unreadable room bytes) :
    Suspect room bytes := by
  obtain hnone | ⟨text, hbytes, hrefused⟩ := h
  · exact .inl hnone
  refine .inr ⟨text, hbytes, ?_⟩
  rcases hrefused.shows with ⟨run, hrun, hlong⟩ | hroom
  · exact .inl ⟨run, infix_of_unifyBreaks hlong.newline_notMem hrun, hlong⟩
  · rw [countP_unifyBreaks] at hroom
    exact .inr hroom

theorem encode_inj {s t : String} (h : Utf8.encode s = Utf8.encode t) : s = t := by
  have hs := Utf8.decodeStrict_eq_ok_iff.2 (Utf8.encode_eq s)
  have ht := Utf8.decodeStrict_eq_ok_iff.2 (Utf8.encode_eq t)
  rw [h, ht] at hs
  exact String.toList_inj.1 (Except.ok.inj hs).symm

theorem chosenByBytes_encode (room : Nat) (text : String) :
    chosenByBytes room (Utf8.encode text) =
      match Toml.parse room (unifyBreaks text.toList) with
      | .ok document => .ok (chosenIn document)
      | .error (.tooLong numeral) => .error (.tooLong numeral)
      | .error .tooDeep => .error .tooDeep
      | .error .malformed => .ok .null := by
  have hdecode := Utf8.decodeStrict_eq_ok_iff.2 (Utf8.encode_eq text)
  unfold chosenByBytes
  split
  next place hplace =>
    rw [hdecode] at hplace
    cases hplace
  next text' htext =>
    rw [hdecode] at htext
    cases htext
    rfl

/-- **A file fails exactly if it cannot be read.** -/
theorem exists_chosenByBytes_error_iff {room : Nat} {bytes : List UInt8} :
    (∃ fault, chosenByBytes room bytes = .error fault) ↔ Unreadable room bytes := by
  by_cases htext : ∃ text, bytes = Utf8.encode text
  · obtain ⟨text, rfl⟩ := htext
    have hunreadable : Unreadable room (Utf8.encode text) ↔
        Toml.Refused room (unifyBreaks text.toList) := by
      constructor
      · rintro (hnone | ⟨text', hbytes, hrefused⟩)
        · exact absurd rfl (hnone text)
        · rwa [encode_inj hbytes]
      · exact fun hrefused => .inr ⟨text, rfl, hrefused⟩
    rw [hunreadable, ← Toml.exists_parse_error_iff, chosenByBytes_encode]
    cases Toml.parse room (unifyBreaks text.toList) with
    | ok document => simp
    | error fault =>
      cases fault with
      | malformed => simp
      | tooLong numeral => simp
      | tooDeep => simp
  · have hnone : ∀ text, bytes ≠ Utf8.encode text := not_exists.1 htext
    obtain ⟨place, hplace⟩ := Utf8.exists_decodeStrict_error_iff.2 hnone
    have hbytes : chosenByBytes room bytes = .error (.undecodable place) := by
      rw [chosenByBytes, hplace]
    exact iff_of_true ⟨_, hbytes⟩ (.inl hnone)

/-! ### The second source -/

namespace CompilerChoice

variable {c : CompilerChoice} {env : Environment}

/-- The workspace has a project file, and these are its bytes. -/
def HasFile (c : CompilerChoice) (env : Environment) (bytes : List UInt8) : Prop :=
  ∃ root, c.root = some root ∧ root ≠ "" ∧
    env.lookUp (projectPath root) = .ok (some (.file bytes))

/-- The system refuses to look for the project file, for another reason than that nothing is
there. -/
def Unfindable (c : CompilerChoice) (env : Environment) : Prop :=
  ∃ root refusal, c.root = some root ∧ root ≠ "" ∧ env.Refuses (projectPath root) refusal ∧
    refusal.saysMissing = false

/-- The project file has a say: it is a document with a table `compiler`, and `v` stands at
`path` there. -/
def FileChooses (c : CompilerChoice) (env : Environment) (v : Value) : Prop :=
  ∃ text document fields, c.HasFile env (Utf8.encode text) ∧
    Toml.parse env.room (unifyBreaks text.toList) = .ok document ∧
    document.get "compiler" = .table fields ∧ (Value.table fields).get "path" = v

/-- What the project file adds to the choice: nothing, if it has no say. -/
def Second (c : CompilerChoice) (env : Environment) (v : Value) : Prop :=
  c.FileChooses env v ∨ (∀ w, ¬ c.FileChooses env w) ∧ v = .null

theorem HasFile.unique {bytes bytes' : List UInt8} (h : c.HasFile env bytes)
    (h' : c.HasFile env bytes') : bytes = bytes' := by
  obtain ⟨root, hroot, -, hentry⟩ := h
  obtain ⟨root', hroot', -, hentry'⟩ := h'
  rw [hroot, Option.some.injEq] at hroot'
  rw [← hroot', hentry, Except.ok.injEq, Option.some.injEq, FileEntry.file.injEq] at hentry'
  exact hentry'

theorem projectCompiler_of_hasFile {bytes : List UInt8} (h : c.HasFile env bytes) :
    projectCompiler env c.root = chosenByBytes env.room bytes := by
  obtain ⟨root, hroot, hne, hentry⟩ := h
  rw [hroot, projectCompiler, if_neg hne, hentry]

theorem exists_error_of_unfindable (h : c.Unfindable env) :
    ∃ fault, projectCompiler env c.root = .error fault := by
  obtain ⟨root, refusal, hroot, hne, hrefuses, hmissing⟩ := h
  refine ⟨.refused refusal (String.ofList (projectPath root)), ?_⟩
  rw [hroot, projectCompiler, if_neg hne, Environment.lookUp_eq_error_iff.2 hrefuses]
  exact if_neg (Bool.not_eq_true _ ▸ hmissing)

theorem projectCompiler_of_no_file (h : ∀ bytes, ¬ c.HasFile env bytes)
    (hfindable : ¬ c.Unfindable env) : projectCompiler env c.root = .ok .null := by
  cases hroot : c.root with
  | none => rfl
  | some root =>
    rw [projectCompiler]
    split_ifs with hempty
    · rfl
    · split
      next bytes hentry => exact absurd ⟨root, hroot, hempty, hentry⟩ (h bytes)
      next => rfl
      next refusal hlookUp =>
        have hrefuses := Environment.lookUp_eq_error_iff.1 hlookUp
        cases hmissing : refusal.saysMissing with
        | true => rfl
        | false => exact absurd ⟨root, refusal, hroot, hempty, hrefuses, hmissing⟩ hfindable

theorem fileChooses_iff {text : String} (h : c.HasFile env (Utf8.encode text)) {v : Value} :
    c.FileChooses env v ↔
      ∃ document fields, Toml.parse env.room (unifyBreaks text.toList) = .ok document ∧
        document.get "compiler" = .table fields ∧ (Value.table fields).get "path" = v := by
  constructor
  · rintro ⟨text', document, fields, hfile, hchoice⟩
    rw [encode_inj (h.unique hfile)]
    exact ⟨document, fields, hchoice⟩
  · rintro ⟨document, fields, hchoice⟩
    exact ⟨text, document, fields, h, hchoice⟩

theorem FileChooses.unique {v w : Value} (hv : c.FileChooses env v) (hw : c.FileChooses env w) :
    v = w := by
  obtain ⟨text, document, fields, hfile, hparse, hfields, rfl⟩ := hv
  obtain ⟨document', fields', hparse', hfields', rfl⟩ := (fileChooses_iff hfile).1 hw
  rw [hparse, Except.ok.injEq] at hparse'
  rw [← hparse', hfields, Value.table.injEq] at hfields'
  rw [hfields']

theorem Second.unique {v w : Value} (hv : c.Second env v) (hw : c.Second env w) : v = w := by
  obtain hv | ⟨hnone, rfl⟩ := hv
  · obtain hw | ⟨hnone, -⟩ := hw
    · exact hv.unique hw
    · exact absurd hv (hnone v)
  · obtain hw | ⟨-, rfl⟩ := hw
    · exact absurd hw (hnone w)
    · rfl

theorem exists_second (c : CompilerChoice) (env : Environment) : ∃ v, c.Second env v := by
  by_cases h : ∃ v, c.FileChooses env v
  · obtain ⟨v, hv⟩ := h
    exact ⟨v, .inl hv⟩
  · exact ⟨.null, .inr ⟨not_exists.1 h, rfl⟩⟩

theorem second_of_text {text : String} (h : c.HasFile env (Utf8.encode text)) {v : Value}
    (hv : chosenByBytes env.room (Utf8.encode text) = .ok v) : c.Second env v := by
  rw [chosenByBytes_encode] at hv
  cases hparse : Toml.parse env.room (unifyBreaks text.toList) with
  | ok document =>
    rw [hparse] at hv
    have hv : chosenIn document = v := Except.ok.inj hv
    unfold chosenIn at hv
    split at hv
    next fields hfields =>
      exact .inl ((fileChooses_iff h).2 ⟨document, fields, hparse, hfields, hv⟩)
    next hother =>
      refine .inr ⟨fun w hw => ?_, hv.symm⟩
      obtain ⟨document', fields, hparse', hfields, -⟩ := (fileChooses_iff h).1 hw
      rw [hparse, Except.ok.injEq] at hparse'
      exact hother fields (hparse' ▸ hfields)
  | error fault =>
    -- a fault that is passed over is that of a malformed text
    rw [hparse] at hv
    cases fault with
    | tooLong numeral => cases hv
    | tooDeep => cases hv
    | malformed =>
      cases hv
      refine .inr ⟨fun w hw => ?_, rfl⟩
      obtain ⟨document, fields, hparse', -⟩ := (fileChooses_iff h).1 hw
      rw [hparse] at hparse'
      cases hparse'

theorem second_of_ok {v : Value} (h : projectCompiler env c.root = .ok v) : c.Second env v := by
  by_cases hfile : ∃ bytes, c.HasFile env bytes
  · obtain ⟨bytes, hbytes⟩ := hfile
    rw [projectCompiler_of_hasFile hbytes] at h
    by_cases htext : ∃ text, bytes = Utf8.encode text
    · obtain ⟨text, rfl⟩ := htext
      exact second_of_text hbytes h
    · obtain ⟨fault, hfault⟩ := exists_chosenByBytes_error_iff.2 (.inl (not_exists.1 htext))
      rw [h] at hfault
      cases hfault
  · have hnone := not_exists.1 hfile
    have hfindable : ¬ c.Unfindable env := by
      intro hrefused
      obtain ⟨fault, hfault⟩ := exists_error_of_unfindable hrefused
      rw [h] at hfault
      cases hfault
    rw [projectCompiler_of_no_file hnone hfindable] at h
    cases h
    refine .inr ⟨fun w hw => ?_, rfl⟩
    obtain ⟨text, -, -, hbytes, -⟩ := hw
    exact hnone _ hbytes

/-- The project file cannot be looked for, or it cannot be read. -/
def FileFails (c : CompilerChoice) (env : Environment) : Prop :=
  c.Unfindable env ∨ ∃ bytes, c.HasFile env bytes ∧ Unreadable env.room bytes

theorem exists_projectCompiler_error_iff :
    (∃ fault, projectCompiler env c.root = .error fault) ↔ c.FileFails env := by
  constructor
  · rintro ⟨fault, hfault⟩
    by_cases hfile : ∃ bytes, c.HasFile env bytes
    · obtain ⟨bytes, hbytes⟩ := hfile
      rw [projectCompiler_of_hasFile hbytes] at hfault
      exact .inr ⟨bytes, hbytes, exists_chosenByBytes_error_iff.1 ⟨fault, hfault⟩⟩
    · left
      by_contra hfindable
      rw [projectCompiler_of_no_file (not_exists.1 hfile) hfindable] at hfault
      cases hfault
  · rintro (hunfindable | ⟨bytes, hbytes, hunreadable⟩)
    · exact exists_error_of_unfindable hunfindable
    · rw [projectCompiler_of_hasFile hbytes]
      exact exists_chosenByBytes_error_iff.2 hunreadable

/-- **The project file adds its choice unless it fails.** -/
theorem projectCompiler_eq_ok_iff {v : Value} :
    projectCompiler env c.root = .ok v ↔ ¬ c.FileFails env ∧ c.Second env v := by
  rw [← exists_projectCompiler_error_iff]
  cases hproject : projectCompiler env c.root with
  | error fault => simp
  | ok w =>
    have hw := second_of_ok hproject
    constructor
    · rintro ⟨⟩
      exact ⟨by simp, hw⟩
    · rintro ⟨-, hv⟩
      rw [hw.unique hv]

/-! ### The choice -/

/-- The four that may choose, in order, with what the project file adds. -/
def sources (c : CompilerChoice) (env : Environment) (project : Value) : List Value :=
  [c.explicit, project, .ofText? env.compilerVariable, .str defaultCompiler]

/-- Nobody chooses before the project file, and the project file fails. -/
def Blocked (c : CompilerChoice) (env : Environment) : Prop :=
  c.explicit.present = false ∧ c.FileFails env

theorem find?_sources (project : Value) :
    (c.sources env project).find? Value.present =
      some (c.explicit.orElse (project.orElse (environmentCompiler env))) := by
  have hdefault : (Value.str defaultCompiler).present = true := by decide
  unfold sources environmentCompiler Value.orElse
  by_cases hexplicit : c.explicit.present = true
  · simp [hexplicit]
  · by_cases hproject : project.present = true
    · simp [hexplicit, hproject]
    · by_cases hvariable : (Value.ofText? env.compilerVariable).present = true
      · simp [hexplicit, hproject, hvariable]
      · simp [hexplicit, hproject, hvariable, hdefault]

theorem resolve_eq_ok_iff {v : Value} :
    c.resolve env = .ok v ↔
      ¬ c.Blocked env ∧
        ∃ project, c.Second env project ∧
          (c.sources env project).find? Value.present = some v := by
  simp only [find?_sources, Option.some.injEq]
  by_cases hexplicit : c.explicit.present = true
  · have hresolve : c.resolve env = .ok c.explicit := if_pos hexplicit
    have hfree : ¬ c.Blocked env := fun h => Bool.false_ne_true (h.1.symm.trans hexplicit)
    simp only [hresolve, Except.ok.injEq, Value.orElse, if_pos hexplicit]
    obtain ⟨project, hproject⟩ := exists_second c env
    exact ⟨fun h => ⟨hfree, project, hproject, h⟩, fun ⟨_, _, _, h⟩ => h⟩
  · have hresolve : c.resolve env =
        (projectCompiler env c.root).map (·.orElse (environmentCompiler env)) := if_neg hexplicit
    have hblocked : c.Blocked env ↔ c.FileFails env := by simp [Blocked, hexplicit]
    have horElse (w : Value) : c.explicit.orElse w = w := if_neg hexplicit
    rw [hresolve, hblocked]
    constructor
    · intro h
      cases hproject : projectCompiler env c.root with
      | error fault =>
        rw [hproject] at h
        cases h
      | ok project =>
        obtain ⟨hfree, hsecond⟩ := projectCompiler_eq_ok_iff.1 hproject
        rw [hproject] at h
        exact ⟨hfree, project, hsecond, (horElse _).trans (Except.ok.inj h)⟩
    · rintro ⟨hfree, project, hsecond, hv⟩
      rw [projectCompiler_eq_ok_iff.2 ⟨hfree, hsecond⟩, ← hv, horElse]
      rfl

/-- **A broken project file is passed over, but for those that fail.** A choice finds a
compiler exactly if it is not blocked, and it finds the first of the four that says something.
It is blocked only if the system refuses to look for the file, or if the file is no text, or has
a long run of digits or opening brackets enough to use up the room. -/
theorem resolve_unless_blocked (c : CompilerChoice) (env : Environment) :
    (∀ v, c.resolve env = .ok v ↔
      ¬ c.Blocked env ∧
        ∃ project, c.Second env project ∧ (c.sources env project).find? Value.present = some v) ∧
    ((∃ v, c.resolve env = .ok v) ↔ ¬ c.Blocked env) ∧
    (c.Blocked env →
      c.Unfindable env ∨ ∃ bytes, c.HasFile env bytes ∧ Suspect env.room bytes) := by
  refine ⟨fun v => resolve_eq_ok_iff, ⟨?_, fun h => ?_⟩, ?_⟩
  · rintro ⟨v, hv⟩
    exact (resolve_eq_ok_iff.1 hv).1
  · obtain ⟨project, hproject⟩ := exists_second c env
    exact ⟨_, resolve_eq_ok_iff.2 ⟨h, project, hproject, find?_sources project⟩⟩
  · rintro ⟨-, hunfindable | ⟨bytes, hbytes, hunreadable⟩⟩
    · exact .inl hunfindable
    · exact .inr ⟨bytes, hbytes, suspect_of_unreadable hunreadable⟩

/-- A workspace with a project file of the given bytes, and a variable that names a compiler. -/
def workspaceWith (bytes : List UInt8) : Environment :=
  { directory := "/",
    entries := [(["ws".toList], .directory), (["ws".toList, projectFile.toList], .file bytes)],
    compilerVariable := some "/env/renc" }

/-- A header without its closing bracket does not block the choice: the variable decides. -/
theorem variable_decides_beside_malformed :
    ¬ Blocked { root := some "/ws" } (workspaceWith [0x5b, 0x61]) ∧
      resolve { root := some "/ws" } (workspaceWith [0x5b, 0x61]) = .ok (.str "/env/renc") :=
  ⟨(resolve_unless_blocked _ _).2.1.1 ⟨_, rfl⟩, rfl⟩

-- a name of more bytes than the system allows blocks it, though there is no file
example : resolve { root := some "/work" }
      { directory := "/", compilerVariable := some "/env/renc", nameLimit := 3 } =
    .error (.refused .nameTooLong "/work/.renlsp.toml") := by
  rfl

/-- A byte that starts no character blocks the choice, though the variable names a compiler. -/
theorem no_compiler_beside_lone_byte :
    ¬ ∃ v, resolve { root := some "/ws" } (workspaceWith [0xff]) = .ok v := by
  have hfault : resolve { root := some "/ws" } (workspaceWith [0xff]) =
      .error (.undecodable ⟨0, [0xff], .invalidStart⟩) := rfl
  rintro ⟨v, hv⟩
  rw [hfault] at hv
  cases hv

end CompilerChoice
end RenServer
