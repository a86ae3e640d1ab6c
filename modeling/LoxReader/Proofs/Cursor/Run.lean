/-
  `Proofs.Cursor.Run`: what a cursor does, whatever is asked of it.

  A cursor is made for a list of tokens and is then moved and looked at any number of times.
  However often it is told to move, it stands in the list, behind as many tokens as it has
  handed out, and never behind a mark of the end (`run_takes`, `length_taken_run`).  The main
  statement is `ofTokens_moves`.
-/
import LoxReader.Proofs.Cursor

set_option autoImplicit false

namespace LoxReader.Cursor

/-! ## Operations -/

/-- A look at a cursor, which leaves it where it is. -/
inductive Query where
  | current
  | kind
  | tag
  | loc
  | position
  | atEnd
  | check (expected : TokenTag)
deriving DecidableEq

/-- What can be done with a cursor. -/
inductive Operation where
  | advance
  | look (query : Query)
deriving DecidableEq

/-- What a look shows. -/
inductive Answer where
  | token (token : Token)
  | kind (kind : TokenKind)
  | tag (tag : TokenTag)
  | loc (loc : Location)
  | count (n : Nat)
  | truth (b : Bool)
deriving DecidableEq

/-- What an operation gives. -/
inductive Reply where
  | taken (token : Token)
  | refused (fault : CursorFault)
  | seen (answer : Answer)
deriving DecidableEq

/-- The token that was taken, if one was. -/
def Reply.taken? : Reply → Option Token
  | .taken token => some token
  | _ => none

/-- The tokens that were taken. -/
def taken (replies : List Reply) : List Token :=
  replies.filterMap Reply.taken?

/-- What a look at a cursor shows. -/
def Query.answer (c : Cursor) : Query → Answer
  | .current => .token c.current
  | .kind => .kind c.kind
  | .tag => .tag c.tag
  | .loc => .loc c.loc
  | .position => .count c.position
  | .atEnd => .truth c.atEnd
  | .check expected => .truth (c.check expected)

/-- One operation.  A cursor that cannot be moved stays where it is. -/
def step (c : Cursor) : Operation → Reply × Cursor
  | .advance =>
    match c.advance with
    | .ok (token, c) => (.taken token, c)
    | .error f => (.refused f, c)
  | .look query => (.seen (query.answer c), c)

/-- Operations one after the other. -/
def run : Cursor → List Operation → List Reply × Cursor
  | c, [] => ([], c)
  | c, op :: ops => ((c.step op).1 :: ((c.step op).2.run ops).1, ((c.step op).2.run ops).2)

/-! ## One operation -/

theorem step_advance_of_eof {c : Cursor} (h : c.kind = .eof) :
    c.step .advance = (.refused .pastEnd, c) := by
  rw [step, advance_eq_error_iff.mpr ⟨h, rfl⟩]

theorem step_advance_of_ne {c : Cursor} (h : c.kind ≠ .eof) :
    c.step .advance = (.taken c.current, c.next h) := by
  rw [step, advance_eq_ok h]

theorem isEof_iff {token : Token} : token.isEof = true ↔ token.kind = .eof :=
  beq_iff_eq

/-- What a look shows at a token with this number. -/
def Query.answerAt (position : Nat) (token : Token) : Query → Answer
  | .current => .token token
  | .kind => .kind token.kind
  | .tag => .tag token.tag
  | .loc => .loc token.loc
  | .position => .count position
  | .atEnd => .truth token.isEof
  | .check expected => .truth (token.tag == expected)

/-- What an operation gives at a token with this number: only the mark of the end is not
taken. -/
def Operation.replyAt (position : Nat) (token : Token) : Operation → Reply
  | .advance => if token.isEof then .refused .pastEnd else .taken token
  | .look query => .seen (query.answerAt position token)

/-- What an operation gives depends on where the cursor stands only. -/
theorem reply_step (c : Cursor) (op : Operation) :
    (c.step op).1 = op.replyAt c.position c.current := by
  cases op with
  | advance =>
      by_cases h : c.kind = .eof
      · rw [step_advance_of_eof h, Operation.replyAt, if_pos (isEof_iff.mpr h)]
      · rw [step_advance_of_ne h, Operation.replyAt, if_neg (mt isEof_iff.mp h)]
  | look query =>
      cases query with
      | atEnd =>
          have hatEnd : c.atEnd = c.current.isEof :=
            Bool.eq_iff_iff.mpr (atEnd_iff.trans isEof_iff.symm)
          exact congrArg (fun b => Reply.seen (.truth b)) hatEnd
      | _ => rfl

/-- One operation takes no token or the current one, and never the mark of the end. -/
theorem step_takes (c : Cursor) (op : Operation) :
    c.Takes (taken [(c.step op).1]) (c.step op).2 ∧
      ∀ token ∈ taken [(c.step op).1], token.kind ≠ .eof := by
  cases op with
  | advance =>
      by_cases h : c.kind = .eof
      · rw [step_advance_of_eof h]
        exact ⟨.refl c, List.forall_mem_nil _⟩
      · rw [step_advance_of_ne h]
        exact ⟨.next h, List.forall_mem_singleton.mpr h⟩
  | look query => exact ⟨.refl c, List.forall_mem_nil _⟩

/-! ## Runs -/

theorem run_append (c : Cursor) (first second : List Operation) :
    c.run (first ++ second) =
      ((c.run first).1 ++ ((c.run first).2.run second).1, ((c.run first).2.run second).2) := by
  induction first generalizing c with
  | nil => rfl
  | cons op first ih =>
      rw [List.cons_append, run, run, ih]
      rfl

theorem length_replies_run (c : Cursor) (ops : List Operation) :
    (c.run ops).1.length = ops.length := by
  induction ops generalizing c with
  | nil => rfl
  | cons op ops ih => exact congrArg (· + 1) (ih _)

theorem taken_run_cons (c : Cursor) (op : Operation) (ops : List Operation) :
    taken (c.run (op :: ops)).1 = taken [(c.step op).1] ++ taken ((c.step op).2.run ops).1 := by
  rw [taken, taken, taken, ← List.filterMap_append]
  rfl

/-- A run takes tokens one after the other, and never the mark of the end. -/
theorem run_takes (c : Cursor) (ops : List Operation) :
    c.Takes (taken (c.run ops).1) (c.run ops).2 ∧
      ∀ token ∈ taken (c.run ops).1, token.kind ≠ .eof := by
  induction ops generalizing c with
  | nil => exact ⟨.refl c, List.forall_mem_nil _⟩
  | cons op ops ih =>
      obtain ⟨hstep, hstepKinds⟩ := step_takes c op
      obtain ⟨hrun, hrunKinds⟩ := ih (c.step op).2
      rw [taken_run_cons]
      exact ⟨hstep.trans hrun, List.forall_mem_append.mpr ⟨hstepKinds, hrunKinds⟩⟩

/-- A run takes as many tokens as it tries to, or else all in front of the first mark of the
end. -/
theorem length_taken_run (c : Cursor) (ops : List Operation) :
    (taken (c.run ops).1).length =
      min (ops.count .advance) (c.tokens.findIdx Token.isEof) := by
  induction ops generalizing c with
  | nil => exact (Nat.zero_min _).symm
  | cons op ops ih =>
      rw [taken_run_cons, List.length_append, ih]
      cases op with
      | look query =>
          rw [List.count_cons_of_ne (by simp)]
          exact Nat.zero_add _
      | advance =>
          rw [List.count_cons_self]
          by_cases h : c.kind = .eof
          · have hfirst : c.tokens.findIdx Token.isEof = 0 := by
              rw [tokens, List.findIdx_cons, isEof_iff.mpr h, cond_true]
            rw [step_advance_of_eof h, hfirst, Nat.min_zero, Nat.min_zero]
            rfl
          · have hfirst : c.tokens.findIdx Token.isEof =
                (c.next h).tokens.findIdx Token.isEof + 1 := by
              rw [(Takes.next h).tokens_eq, List.singleton_append, List.findIdx_cons,
                Bool.eq_false_iff.mpr (mt isEof_iff.mp h), cond_false]
            rw [step_advance_of_ne h, hfirst, Nat.add_min_add_right]
            exact Nat.add_comm _ _

/-! ## Cursors over a list -/

/-- The number of tokens that a cursor has behind it after these operations. -/
def reached (slice : List Token) (ops : List Operation) : Nat :=
  min (ops.count .advance) (slice.findIdx Token.isEof)

/-- Where a cursor over `slice` stands after operations, and what they gave. -/
structure Moves (slice : List Token) (ops : List Operation) (replies : List Reply) (c : Cursor) :
    Prop where
  inside : c.position < slice.length
  current : slice[c.position]? = some c.current
  /-- The cursor has moved as often as it was told to, as long as it was not at a mark of the
  end. -/
  position : c.position = reached slice ops
  /-- The tokens that were taken are those from the start of the list, in order. -/
  taken_eq : taken replies = slice.take c.position
  count : (taken replies).length = c.position
  /-- No mark of the end is behind the cursor. -/
  proper : ∀ token ∈ slice.take c.position, token.kind ≠ .eof
  /-- Each operation gives what it has to at the token that the operations before it lead to. -/
  reply : ∀ before op after, ops = before ++ op :: after →
    ∃ token, slice[reached slice before]? = some token ∧
      replies[before.length]? = some (op.replyAt (reached slice before) token)

/-- A cursor stands at a token of the list that it was made for. -/
theorem Takes.getElem?_position {c c' : Cursor} {ts : List Token} (h : c.Takes ts c')
    (hstart : c.position = 0) : c.tokens[c'.position]? = some c'.current := by
  have hposition : c'.position = ts.length := by rw [h.position_eq, hstart, Nat.zero_add]
  rw [h.tokens_eq, hposition, List.getElem?_append_right (Nat.le_refl _), Nat.sub_self]
  rfl

theorem position_of_ofTokens {slice : List Token} {c : Cursor} (h : ofTokens slice = .ok c) :
    c.position = 0 := by
  obtain rfl := tokens_of_ofTokens h
  have hmade := ofTokens_of_ends c.ends
  exact congrArg position (Except.ok.inj (h.symm.trans hmade))

/-- After any operations a cursor stands where they lead to. -/
theorem stands_of_run {slice : List Token} {c : Cursor} (h : ofTokens slice = .ok c)
    (ops : List Operation) :
    (c.run ops).2.position = reached slice ops ∧
      slice[reached slice ops]? = some (c.run ops).2.current := by
  have hstart := position_of_ofTokens h
  obtain rfl := tokens_of_ofTokens h
  obtain ⟨htakes, -⟩ := run_takes c ops
  have hposition : (c.run ops).2.position = reached c.tokens ops := by
    rw [htakes.position_eq, hstart, Nat.zero_add, length_taken_run]
    rfl
  exact ⟨hposition, hposition ▸ htakes.getElem?_position hstart⟩

/-- After any operations a cursor has done what they ask for and no more. -/
theorem moves_run {slice : List Token} {c : Cursor} (h : ofTokens slice = .ok c)
    (ops : List Operation) : Moves slice ops (c.run ops).1 (c.run ops).2 := by
  have hstart := position_of_ofTokens h
  have htokens := tokens_of_ofTokens h
  obtain ⟨hposition, hcurrent⟩ := stands_of_run h ops
  obtain ⟨htakes, hkinds⟩ := run_takes c ops
  have hcount : (taken (c.run ops).1).length = (c.run ops).2.position := by
    rw [htakes.position_eq, hstart, Nat.zero_add]
  have htaken : taken (c.run ops).1 = slice.take (c.run ops).2.position := by
    rw [← htokens, htakes.tokens_eq, ← hcount, List.take_left]
  refine ⟨?_, hposition ▸ hcurrent, hposition, htaken, hcount, htaken ▸ hkinds, ?_⟩
  · obtain ⟨hinside, -⟩ := List.getElem?_eq_some_iff.mp hcurrent
    exact hposition ▸ hinside
  · rintro before op after rfl
    obtain ⟨hbefore, htoken⟩ := stands_of_run h before
    refine ⟨_, htoken, ?_⟩
    rw [run_append, List.getElem?_append_right (Nat.le_of_eq (length_replies_run c before)),
      length_replies_run, Nat.sub_self, ← hbefore, ← reply_step]
    rfl

theorem endsWithEof_iff {slice : List Token} :
    endsWithEof slice = true ↔ ∃ last, slice.getLast? = some last ∧ last.kind = .eof := by
  induction slice using endsWithEof.induct with
  | case1 => simp [endsWithEof]
  | case2 token => simp [endsWithEof, Token.isEof]
  | case3 first next rest ih => rw [endsWithEof, ih, List.getLast?_cons_cons]

/-- A cursor is made for tokens that end with the mark of the end. -/
theorem exists_ofTokens_iff {slice : List Token} :
    (∃ c, ofTokens slice = .ok c) ↔ ∃ last, slice.getLast? = some last ∧ last.kind = .eof := by
  rw [← endsWithEof_iff]
  cases slice with
  | nil => simp [ofTokens, endsWithEof]
  | cons token rest =>
      constructor
      · rintro ⟨c, hc⟩
        exact tokens_of_ofTokens hc ▸ c.ends
      · exact fun hends => ⟨_, ofTokens_of_ends hends⟩

/-- A cursor is made for each list of tokens that ends with the mark of the end and for no
other, and whatever is done with it, it moves through the list from the start and not behind
the first mark of the end. -/
theorem ofTokens_moves (slice : List Token) :
    ((∃ c, ofTokens slice = .ok c) ↔
        ∃ last, slice.getLast? = some last ∧ last.kind = .eof) ∧
      ∀ c, ofTokens slice = .ok c → ∀ ops, Moves slice ops (c.run ops).1 (c.run ops).2 :=
  ⟨exists_ofTokens_iff, fun _ h ops => moves_run h ops⟩

/-- Told to move three times, a cursor stays at the mark of the end that has more tokens
behind it. -/
theorem ofTokens_moves_innerEof :
    ∃ c, ofTokens [⟨.error, .start⟩, ⟨.eof, .start⟩, ⟨.error, .start⟩, ⟨.eof, .start⟩] = .ok c ∧
      (c.run [.advance, .advance, .look .position, .advance]).2.position = 1 ∧
      taken (c.run [.advance, .advance, .look .position, .advance]).1 = [⟨.error, .start⟩] := by
  have hspec := ofTokens_moves
    [⟨.error, .start⟩, ⟨.eof, .start⟩, ⟨.error, .start⟩, ⟨.eof, .start⟩]
  obtain ⟨c, hc⟩ := hspec.1.mpr ⟨⟨.eof, .start⟩, rfl, rfl⟩
  have hmoves := hspec.2 c hc [.advance, .advance, .look .position, .advance]
  have hposition := hmoves.position.trans (show _ = 1 by decide)
  refine ⟨c, hc, hposition, ?_⟩
  rw [hmoves.taken_eq, hposition]
  rfl

end LoxReader.Cursor
