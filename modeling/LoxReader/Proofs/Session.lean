/-
  `Proofs.Session`: sessions are put together from their lines.

  Nothing is carried from one line to the next: what is written for input that goes on behind a
  line is what is written for the line, and then what is written for the rest.  So a session on
  whole lines of text and more input is the session on the lines, up to its last prompt, and
  then the session on what follows.  The main statement is `run_composes`.
-/
import LoxReader.Proofs.Report.Snippet
import LoxReader.Proofs.Text.Utf8

set_option autoImplicit false

namespace LoxReader.Session

/-! ## Cutting input into lines -/

/-- The input starts with the line, which has a line feed at its end and nowhere else, or
none at all if it is all of the input. -/
inductive FirstLine : List UInt8 → List UInt8 → Prop
  | feed {body rest : List UInt8} : 10 ∉ body → FirstLine (body ++ [10]) rest
  | last {line : List UInt8} : line ≠ [] → 10 ∉ line → FirstLine line []

theorem not_mem_iff_forall_bne {bytes : List UInt8} :
    10 ∉ bytes ↔ ∀ b ∈ bytes, (b != 10) = true := by
  simp only [bne_iff_ne]
  exact ⟨fun h b hb heq => h (heq ▸ hb), fun h hmem => h 10 hmem rfl⟩

theorem FirstLine.ne_nil {line rest : List UInt8} (h : FirstLine line rest) : line ≠ [] := by
  cases h with
  | feed _ => simp
  | last hne _ => exact hne

theorem FirstLine.splitLine_eq {line rest : List UInt8} (h : FirstLine line rest) :
    splitLine (line ++ rest) = (line, rest) := by
  cases h with
  | @feed body _ hbody =>
      have hall := not_mem_iff_forall_bne.mp hbody
      rw [List.append_assoc, List.singleton_append, splitLine,
        List.takeWhile_append_of_pos hall, List.dropWhile_append_of_pos hall]
      simp
  | last _ hline =>
      have hall := not_mem_iff_forall_bne.mp hline
      rw [List.append_nil, splitLine, List.dropWhile_eq_nil_iff.mpr hall]

/-- Input that is not empty starts with a line. -/
theorem firstLine_splitLine (b : UInt8) (rest : List UInt8) :
    FirstLine (splitLine (b :: rest)).1 (splitLine (b :: rest)).2 := by
  unfold splitLine
  split
  · rename_i hdrop
    exact .last (List.cons_ne_nil _ _)
      (not_mem_iff_forall_bne.mpr (List.dropWhile_eq_nil_iff.mp hdrop))
  · rename_i feed after hdrop
    have hfeed : feed = 10 := by
      have hhead := List.head?_dropWhile_not (· != 10) (b :: rest)
      rw [hdrop] at hhead
      simpa using hhead
    rw [hfeed]
    apply FirstLine.feed
    rw [not_mem_iff_forall_bne]
    intro c hc
    exact List.mem_takeWhile_imp (p := (· != 10)) hc

/-- What holds of no input, and of a line and more input if it holds of that, holds of all
input. -/
theorem lines_induction {P : List UInt8 → Prop} (nil : P [])
    (line : ∀ line rest, FirstLine line rest → P rest → P (line ++ rest)) (bytes : List UInt8) :
    P bytes := by
  induction h : bytes.length using Nat.strongRecOn generalizing bytes with
  | ind n ih =>
    cases bytes with
    | nil => exact nil
    | cons b rest =>
      have hlt := length_splitLine_lt b rest
      rw [h] at hlt
      have hrest := ih _ hlt _ rfl
      have hall := line _ _ (firstLine_splitLine b rest) hrest
      rwa [append_splitLine] at hall

/-! ## Running line by line -/

theorem run_nil (coloured : Bool) : run coloured [] = ⟨prompt ++ "\n", .endOfInput⟩ := by
  rw [run, runFrom, String.empty_append]

/-- A line is answered, and if it can be, then so is what follows. -/
theorem runFrom_line {line rest : List UInt8} (h : FirstLine line rest) (coloured : Bool)
    (output : String) :
    runFrom coloured output (line ++ rest) =
      match answer coloured line with
      | .error ending => ⟨output ++ prompt, ending⟩
      | .ok text => runFrom coloured (output ++ prompt ++ text) rest := by
  have hsplit := h.splitLine_eq
  obtain ⟨b, tail, htail⟩ :=
    List.exists_cons_of_ne_nil (List.append_ne_nil_of_left_ne_nil h.ne_nil rest)
  rw [htail] at hsplit ⊢
  rw [runFrom]
  cases hanswer : answer coloured line with
  | error ending => simp only [hsplit, hanswer]
  | ok text => simp only [hsplit, hanswer]

/-- What was written before a line is not looked at again. -/
theorem runFrom_eq (coloured : Bool) (output : String) (bytes : List UInt8) :
    runFrom coloured output bytes =
      ⟨output ++ (run coloured bytes).output, (run coloured bytes).ending⟩ := by
  induction bytes using lines_induction generalizing output with
  | nil => rw [runFrom, run_nil, String.append_assoc]
  | line line rest h ih =>
      rw [run, runFrom_line h, runFrom_line h]
      cases answer coloured line with
      | error ending => simp only [String.empty_append]
      | ok text =>
          simp only
          rw [ih, ih ("" ++ prompt ++ text), String.empty_append]
          simp only [String.append_assoc]

/-- The session on a line and more input is the answer to the line, if it has one, and then
the session on the rest. -/
theorem run_line {line rest : List UInt8} (h : FirstLine line rest) (coloured : Bool) :
    run coloured (line ++ rest) =
      match answer coloured line with
      | .error ending => ⟨prompt, ending⟩
      | .ok text => ⟨prompt ++ text ++ (run coloured rest).output, (run coloured rest).ending⟩ := by
  rw [run, runFrom_line h]
  cases answer coloured line with
  | error ending => simp only [String.empty_append]
  | ok text =>
      simp only
      rw [runFrom_eq, String.empty_append]

/-! ## Whole lines of text -/

/-- Input that is a text, and that is empty or ends with a line feed. -/
structure Whole (bytes : List UInt8) : Prop where
  text : ∃ text, decode? bytes = some text
  ends : bytes = [] ∨ bytes.getLast? = some 10

/-- The first line of whole lines of text is a text that ends with a line feed, and whole lines
of text follow. -/
theorem Whole.of_firstLine {line rest : List UInt8} (h : Whole (line ++ rest))
    (hline : FirstLine line rest) :
    (∃ body text, line = body ++ [10] ∧ 10 ∉ body ∧ decode? line = some (text ++ "\n")) ∧
      Whole rest := by
  obtain ⟨⟨text, htext⟩, hends⟩ := h
  cases hline with
  | @feed body _ hbody =>
      rw [List.append_assoc, List.singleton_append] at htext
      obtain ⟨first, second, hfirst, hsecond, -⟩ := exists_of_decode?_append_feed htext
      refine ⟨⟨body, first, rfl, hbody, hfirst⟩, ⟨second, hsecond⟩, ?_⟩
      by_cases hrest : rest = []
      · exact .inl hrest
      · rcases hends with hnil | hlast
        · simp at hnil
        · rw [List.getLast?_append_of_ne_nil _ hrest] at hlast
          exact .inr hlast
  | last hne hline =>
      rw [List.append_nil] at hends
      rcases hends with hnil | hlast
      · exact absurd hnil hne
      · exact absurd (List.mem_of_getLast? hlast) hline

/-! ## Answers -/

/-- The text without the line feeds and carriage returns at its end. -/
def IsTrimmed (text trimmed : String) : Prop :=
  ∃ ending, text.toList = trimmed.toList ++ ending ∧ (∀ c ∈ ending, c = '\n' ∨ c = '\r') ∧
    ∀ c ∈ trimmed.toList.getLast?, c ≠ '\n' ∧ c ≠ '\r'

theorem isTrimmed_trimLine (line : String) : IsTrimmed line (trimLine line) := by
  have htrim : (trimLine line).toList =
      line.toList.rdropWhile fun c => c == '\n' || c == '\r' := by
    rw [trimLine, String.toList_ofList, List.rdropWhile]
  refine ⟨line.toList.rtakeWhile fun c => c == '\n' || c == '\r', ?_, ?_, ?_⟩
  · rw [htrim, List.rdropWhile_append_rtakeWhile]
  · intro c hc
    have hend := List.mem_rtakeWhile_imp hc
    simpa using hend
  · intro c hc
    rw [htrim] at hc
    obtain ⟨hne, rfl⟩ := List.mem_getLast?_eq_getLast hc
    have hlast := List.rdropWhile_last_not _ _ hne
    simpa using hlast

/-- The text in front of a line feed has the bytes of what is trimmed, or more. -/
theorem IsTrimmed.byteSize_le {text trimmed : String} (h : IsTrimmed (text ++ "\n") trimmed) :
    trimmed.utf8ByteSize ≤ text.utf8ByteSize := by
  obtain ⟨ending, heq, -, hlast⟩ := h
  have hending : ending ≠ [] := by
    rintro rfl
    rw [List.append_nil] at heq
    rw [← heq] at hlast
    simp at hlast
  have hpos := List.length_pos_iff.mpr hending
  have hbytes := length_le_byteSize ending
  have hsize := congrArg byteSize heq
  rw [String.toList_append, byteSize_append, byteSize_append, byteSize_toList, byteSize_toList,
    byteSize_toList] at hsize
  have hfeed : "\n".utf8ByteSize = 1 := rfl
  omega

/-- What is written for a line: its tokens, and then its expression or its problems. -/
inductive Answers (coloured : Bool) (source : String) : String → Prop
  | expression {a : Analysis} {listing sexp : String} : Analysis.ofSource source = .ok a →
      a.diagnostics = [] → a.listing = .ok listing → a.sexp = .ok (some sexp) →
        Answers coloured source (listing ++ sexp ++ "\n")
  | problems {a : Analysis} {listing : String} : Analysis.ofSource source = .ok a →
      a.diagnostics ≠ [] → a.listing = .ok listing →
        Answers coloured source
          (listing ++ paint coloured (Report.ofDiagnostics source.toList path a.diagnostics))

/-- A line that is short enough is answered. -/
theorem exists_answers {source : String} (h : source.utf8ByteSize < SourceFault.maxBytes)
    (coloured : Bool) :
    ∃ text, reply coloured source = .ok text ∧ Answers coloured source text := by
  obtain ⟨a, ha, hruns⟩ := exists_ofSource_runs h
  obtain ⟨a', result, ha', -, -, hreports⟩ := (ofSource_reports source).1 _ (lex_of_lt h)
  obtain rfl := Except.ok.inj (ha'.symm.trans ha)
  obtain ⟨listing, hlisting⟩ := hruns.listing
  obtain ⟨sexp, hsexp, hsome⟩ := hruns.sexp
  have hnone : a'.diagnostics = [] ↔ ∃ ast, a'.ast = some ast := by
    simp only [hreports.ast_iff, ← hreports.hasErrors_iff]
    simp [Analysis.hasErrors]
  simp only [reply, ha, Analysis.fullText, hlisting, hsexp]
  cases sexp with
  | none =>
      have hproblems : a'.diagnostics ≠ [] := by
        rw [Ne, hnone]
        rintro ⟨ast, hast⟩
        rw [hast] at hsome
        cases hsome
      refine ⟨_, rfl, ?_⟩
      rw [paintOnto_eq]
      exact .problems ha hproblems hlisting
  | some sexp =>
      have hclean : a'.diagnostics = [] := by
        rw [hnone]
        exact Option.isSome_iff_exists.mp hsome.symm
      refine ⟨_, rfl, ?_⟩
      rw [hclean]
      exact .expression ha hclean hlisting hsexp

/-- What is written for a line and more input. -/
structure LineAnswered (coloured : Bool) (line rest : List UInt8) : Prop where
  /-- A line that is no text ends the session, behind the prompt for it. -/
  notText : decode? line = none → run coloured (line ++ rest) = ⟨prompt, .notText⟩
  /-- Any other line is answered, and the session goes on as it would on the rest alone. -/
  text : ∀ text, decode? line = some text → ∃ trimmed, IsTrimmed text trimmed ∧
    (trimmed.utf8ByteSize < SourceFault.maxBytes → ∃ written, Answers coloured trimmed written ∧
      run coloured (line ++ rest) =
        ⟨prompt ++ written ++ (run coloured rest).output, (run coloured rest).ending⟩)

theorem lineAnswered {line rest : List UInt8} (h : FirstLine line rest) (coloured : Bool) :
    LineAnswered coloured line rest := by
  have hrun := run_line h coloured
  refine ⟨?_, ?_⟩
  · intro hnone
    rw [hrun]
    simp only [answer, hnone]
  · intro text htext
    refine ⟨_, isTrimmed_trimLine text, ?_⟩
    intro hsize
    obtain ⟨written, hreply, hwritten⟩ := exists_answers hsize coloured
    refine ⟨written, hwritten, ?_⟩
    rw [hrun]
    simp only [answer, htext, hreply]

/-! ## Sessions that go on -/

/-- What a session on whole lines of text says about sessions that go on behind them. -/
structure Carries (coloured : Bool) (a : List UInt8) : Prop where
  /-- Short lines are all answered. -/
  ends : (∀ line, line <:+: a → 10 ∉ line → line.length < SourceFault.maxBytes) →
    (run coloured a).ending = .endOfInput
  /-- Where the last prompt stands the session goes on as one of its own. -/
  continues : (run coloured a).ending = .endOfInput →
    ∃ before, run coloured a = ⟨before ++ prompt ++ "\n", .endOfInput⟩ ∧
      ∀ b, run coloured (a ++ b) = ⟨before ++ (run coloured b).output, (run coloured b).ending⟩
  /-- Behind a line that is too long there is nothing. -/
  stops : (run coloured a).ending ≠ .endOfInput →
    (∃ f, (run coloured a).ending = .fault f) ∧ ∀ b, run coloured (a ++ b) = run coloured a

theorem carries_nil (coloured : Bool) : Carries coloured [] := by
  have hnil := run_nil coloured
  refine ⟨?_, ?_, ?_⟩
  · intro _
    rw [hnil]
  · intro _
    refine ⟨"", ?_, ?_⟩
    · rw [hnil, String.empty_append]
    · intro b
      rw [List.nil_append, String.empty_append]
  · intro hne
    rw [hnil] at hne
    exact absurd rfl hne

/-- A line of text is answered, or there is a fault. -/
theorem exists_fault_of_answer {coloured : Bool} {line : List UInt8} {text : String}
    {ending : Ending} (hdecode : decode? line = some text)
    (h : answer coloured line = .error ending) :
    ∃ f, reply coloured (trimLine text) = .error f ∧ ending = .fault f := by
  simp only [answer, hdecode] at h
  split at h
  · rename_i f hreply
    exact ⟨f, hreply, (Except.error.inj h).symm⟩
  · cases h

theorem length_of_decode? {bytes : List UInt8} {text : String} (h : decode? bytes = some text) :
    bytes.length = text.utf8ByteSize := by
  rw [← decode?_eq_some_iff.mp h, length_utf8, byteSize_toList]

/-- A line of text that is not answered is too long. -/
theorem maxBytes_le_of_fault {coloured : Bool} {body : List UInt8} {text : String} {f : Fault}
    (hdecode : decode? (body ++ [10]) = some (text ++ "\n"))
    (hreply : reply coloured (trimLine (text ++ "\n")) = .error f) :
    SourceFault.maxBytes ≤ body.length := by
  by_contra hlong
  have hbytes := length_of_decode? hdecode
  rw [List.length_append, String.utf8ByteSize_append] at hbytes
  have hlength : body.length = text.utf8ByteSize := Nat.add_right_cancel hbytes
  have hsize : (trimLine (text ++ "\n")).utf8ByteSize < SourceFault.maxBytes := by
    have hle := (isTrimmed_trimLine (text ++ "\n")).byteSize_le
    omega
  obtain ⟨written, hwritten, -⟩ := exists_answers hsize coloured
  cases hwritten.symm.trans hreply

/-- Behind a line that is not answered there is nothing. -/
theorem carries_of_fault {coloured : Bool} {body : List UInt8} {f : Fault} (hbody : 10 ∉ body)
    (hlong : SourceFault.maxBytes ≤ body.length)
    (hrun : ∀ b, run coloured (body ++ [10] ++ b) = ⟨prompt, .fault f⟩) (rest : List UInt8) :
    Carries coloured (body ++ [10] ++ rest) := by
  refine ⟨?_, ?_, ?_⟩
  · intro hshort
    have hbound := hshort body ⟨[], [10] ++ rest, by simp⟩ hbody
    exact absurd hlong (Nat.not_le_of_lt hbound)
  · intro hend
    rw [hrun] at hend
    cases hend
  · intro _
    refine ⟨⟨f, by rw [hrun]⟩, ?_⟩
    intro b
    rw [List.append_assoc, hrun, hrun]

/-- Behind a line that is answered a session goes on as the session on the rest does. -/
theorem Carries.of_answer {coloured : Bool} {line rest : List UInt8} {written : String}
    (h : Carries coloured rest) (hrun : ∀ b, run coloured (line ++ b) =
      ⟨prompt ++ written ++ (run coloured b).output, (run coloured b).ending⟩) :
    Carries coloured (line ++ rest) := by
  refine ⟨?_, ?_, ?_⟩
  · intro hshort
    rw [hrun]
    apply h.ends
    intro part hpart
    exact hshort part (hpart.trans (List.suffix_append _ _).isInfix)
  · intro hend
    rw [hrun] at hend
    obtain ⟨before, hbefore, hmore⟩ := h.continues hend
    refine ⟨prompt ++ written ++ before, ?_, ?_⟩
    · rw [hrun, hbefore]
      simp only [String.append_assoc]
    · intro b
      rw [List.append_assoc, hrun, hmore]
      simp only [String.append_assoc]
  · intro hne
    rw [hrun] at hne
    obtain ⟨hfault, hmore⟩ := h.stops hne
    refine ⟨?_, ?_⟩
    · rwa [hrun]
    · intro b
      rw [List.append_assoc, hrun, hrun, hmore]

theorem Carries.line {coloured : Bool} {body rest : List UInt8} {text : String}
    (h : Carries coloured rest) (hbody : 10 ∉ body)
    (hdecode : decode? (body ++ [10]) = some (text ++ "\n")) :
    Carries coloured (body ++ [10] ++ rest) := by
  have hrun : ∀ b, run coloured (body ++ [10] ++ b) = _ := fun b =>
    run_line (.feed hbody) coloured
  cases hanswer : answer coloured (body ++ [10]) with
  | error ending =>
      obtain ⟨f, hreply, rfl⟩ := exists_fault_of_answer hdecode hanswer
      simp only [hanswer] at hrun
      exact carries_of_fault hbody (maxBytes_le_of_fault hdecode hreply) hrun rest
  | ok written =>
      simp only [hanswer] at hrun
      exact h.of_answer hrun

theorem Whole.carries {a : List UInt8} (h : Whole a) (coloured : Bool) : Carries coloured a := by
  induction a using lines_induction with
  | nil => exact carries_nil coloured
  | line line rest hline ih =>
      obtain ⟨⟨body, text, rfl, hbody, hdecode⟩, hrest⟩ := h.of_firstLine hline
      exact (ih hrest).line hbody hdecode

/-- A session on whole lines of text, and one that goes on behind them; and each line is
answered on its own. -/
theorem run_composes (coloured : Bool) :
    (∀ a, Whole a → Carries coloured a) ∧
      ∀ line rest, FirstLine line rest → LineAnswered coloured line rest :=
  ⟨fun _ h => h.carries coloured, fun _ _ h => lineAnswered h coloured⟩

/-- A line with a carriage return and one with a stray character, and then a byte that starts no
character. -/
theorem run_composes_notText :
    ∃ before, run false [49, 13, 10, 35, 10] = ⟨before ++ prompt ++ "\n", .endOfInput⟩ ∧
      run false ([49, 13, 10, 35, 10] ++ [255]) = ⟨before ++ prompt, .notText⟩ := by
  have hwhole : Whole [49, 13, 10, 35, 10] :=
    ⟨⟨"1\r\n#\n", decode?_eq_some_iff.mpr (by decide +kernel)⟩, .inr rfl⟩
  have hcarries := (run_composes false).1 _ hwhole
  have hend := hcarries.ends fun line hline _ =>
    Nat.lt_of_le_of_lt hline.length_le (by decide)
  obtain ⟨before, hbefore, hmore⟩ := hcarries.continues hend
  have hline : FirstLine [255] [] := .last (by decide) (by decide)
  have hlast := ((run_composes false).2 _ _ hline).notText (by decide +kernel)
  rw [List.append_nil] at hlast
  exact ⟨before, hbefore, by rw [hmore, hlast]⟩

end LoxReader.Session
