/-
  `Proofs.Tokenization.Tracking`: finding the places of lexemes from their byte offsets.

  A tracker walks over a source and is told offsets.  It cannot go back, stop inside of a
  character or count further than a place can store.  Told where the lexemes of a source
  start that are not skipped, it is refused only if a place of the source cannot be stored, and
  what is read with its places is what is read (`track_of_counts`).
-/
import LoxReader.Proofs.Source.Counts
import LoxReader.Tokenization.Basic

set_option autoImplicit false

namespace LoxReader

/-! ## Trackers -/

/-- Why a tracker does not move. -/
inductive TrackerFault where
  /-- The offset is behind the tracker. -/
  | backwards
  /-- No character starts at the offset, and the source does not end there. -/
  | offBoundary
  /-- The place cannot be stored. -/
  | overflow
deriving DecidableEq

/-- The text before a byte offset and that behind it, unless the offset is inside of a
character or past the end. -/
def cutAt : Nat → List Char → Option (List Char × List Char)
  | 0, text => some ([], text)
  | _ + 1, [] => none
  | n + 1, c :: text =>
    if c.utf8Size ≤ n + 1 then
      (cutAt (n + 1 - c.utf8Size) text).map fun parts => (c :: parts.1, parts.2)
    else
      none

theorem cutAt_append (first second : List Char) :
    cutAt (byteSize first) (first ++ second) = some (first, second) := by
  induction first with
  | nil => rw [byteSize_nil, List.nil_append, cutAt]
  | cons c first ih =>
      obtain ⟨n, hn⟩ := Nat.exists_eq_succ_of_ne_zero (Nat.ne_of_gt c.utf8Size_pos)
      have hsize : byteSize (c :: first) = n + byteSize first + 1 := by
        rw [byteSize_cons, hn]
        omega
      have hrest : n + byteSize first + 1 - c.utf8Size = byteSize first := by omega
      rw [hsize, List.cons_append, cutAt, if_pos (by omega), hrest, ih]
      rfl

namespace Location

/-- The place after a run of characters, if all places on the way can be stored. -/
def walk : Location → List Char → Except TrackerFault Location
  | loc, [] => .ok loc
  | loc, c :: text => if (loc.step c).Fits then (loc.step c).walk text else .error .overflow

/-- Move a tracker forward to a byte offset of the source. -/
def moveTo (source : List Char) (loc : Location) (offset : Nat) : Except TrackerFault Location :=
  if offset < loc.offset then
    .error .backwards
  else
    match cutAt loc.offset source with
    | none => .error .offBoundary
    | some (_, ahead) =>
      match cutAt (offset - loc.offset) ahead with
      | none => .error .offBoundary
      | some (between, _) => loc.walk between

theorem offset_start_advance (text : List Char) : (start.advance text).offset = byteSize text := by
  rw [offset_advance]
  exact Nat.zero_add _

theorem walk_of_counts {loc : Location} {text : List Char} (h : loc.Counts text) :
    loc.walk text = .ok (loc.advance text) := by
  induction text generalizing loc with
  | nil => rw [walk, advance_nil]
  | cons c text ih =>
      obtain ⟨hfits, htext⟩ := counts_cons.mp h
      rw [walk, if_pos hfits, ih htext, advance_cons]

theorem walk_of_not_counts {loc : Location} {text : List Char} (h : ¬loc.Counts text) :
    loc.walk text = .error .overflow := by
  induction text generalizing loc with
  | nil => exact absurd (counts_nil loc) h
  | cons c text ih =>
      rw [counts_cons, not_and] at h
      rw [walk]
      split
      · rename_i hfits
        exact ih (h hfits)
      · rfl

/-- A tracker that is told a later place of a source walks over the text on the way. -/
theorem moveTo_eq {source before between after : List Char}
    (hsource : source = before ++ between ++ after) :
    (start.advance before).moveTo source (byteSize (before ++ between)) =
      (start.advance before).walk between := by
  have hoffset := offset_start_advance before
  have hcut : cutAt (byteSize before) source = some (before, between ++ after) := by
    rw [hsource, List.append_assoc]
    exact cutAt_append before _
  have hlength : byteSize (before ++ between) - byteSize before = byteSize between := by
    rw [byteSize_append, Nat.add_sub_cancel_left]
  have hle : byteSize before ≤ byteSize (before ++ between) := by
    rw [byteSize_append]
    exact Nat.le_add_right _ _
  rw [moveTo, hoffset, if_neg (Nat.not_lt.mpr hle)]
  simp only [hcut, hlength, cutAt_append]

/-- A tracker moves to any later place if all places of the source can be stored. -/
theorem moveTo_of_counts {source before between after : List Char}
    (hsource : source = before ++ between ++ after) (h : start.Counts source) :
    (start.advance before).moveTo source (byteSize (before ++ between)) =
      .ok (start.advance (before ++ between)) := by
  rw [hsource, List.append_assoc, counts_append, counts_append] at h
  rw [moveTo_eq hsource, walk_of_counts h.2.1, advance_append]

end Location

/-- Two parts of a text that end at the same place are the same. -/
theorem eq_of_start_advance_eq {before before' after after' : List Char}
    (h : before ++ after = before' ++ after')
    (hplace : Location.start.advance before = Location.start.advance before') :
    before = before' ∧ after = after' := by
  have hsize : byteSize before = byteSize before' := by
    rw [← Location.offset_start_advance, hplace, Location.offset_start_advance]
  have hcut := cutAt_append before after
  rw [h, hsize, cutAt_append] at hcut
  simpa [eq_comm] using hcut

/-! ## Reading with a tracker -/

/-- Whether reading goes over a lexeme without a look at where it stands. -/
def Lexeme.isSkipped : Lexeme → Bool
  | .blanks _ => true
  | _ => false

namespace Tokenization

/-- Read lexemes, the first of which starts at byte `offset` of the source, with a tracker
that has come as far as `loc`. -/
def trackFrom (source : List Char) (t : Tokenization) (loc : Location) (offset : Nat) :
    List Lexeme → Except TrackerFault Tokenization
  | [] =>
    match loc.moveTo source (byteSize source) with
    | .error f => .error f
    | .ok loc => .ok (t.push .eof loc)
  | l :: rest =>
    if l.isSkipped then
      t.trackFrom source loc (offset + byteSize l.text) rest
    else
      match loc.moveTo source offset with
      | .error f => .error f
      | .ok loc => (t.add loc l).trackFrom source loc (offset + byteSize l.text) rest

/-- The tokens of a source, with places found by a tracker. -/
def track (source : String) : Except TrackerFault Tokenization :=
  (unread source).trackFrom source.toList .start 0 (lexemes source.toList)

theorem add_of_isSkipped {l : Lexeme} (h : l.isSkipped = true) (t : Tokenization)
    (loc : Location) : t.add loc l = t := by
  cases l with
  | blanks text => rfl
  | _ => cases h

/-- Wherever the tracker has been left behind, it comes to where the next lexeme starts, if all
places of the source can be stored. -/
theorem trackFrom_eq {source before skipped : List Char} {ls : List Lexeme}
    (hsource : source = before ++ skipped ++ ls.flatMap Lexeme.text)
    (h : Location.start.Counts source) (t : Tokenization) :
    t.trackFrom source (Location.start.advance before) (byteSize (before ++ skipped)) ls =
      .ok (t.readFrom (Location.start.advance (before ++ skipped)) ls) := by
  induction ls generalizing t before skipped with
  | nil =>
      have hend : source = before ++ skipped ++ [] := by simpa using hsource
      have hmove := Location.moveTo_of_counts hend h
      rw [List.append_nil] at hend
      rw [← hend] at hmove ⊢
      rw [trackFrom, hmove, readFrom]
  | cons l rest ih =>
      rw [List.flatMap_cons] at hsource
      have hmove := Location.moveTo_of_counts hsource h
      rw [trackFrom, readFrom, ← byteSize_append, ← Location.advance_append]
      split
      · rename_i hskipped
        have hnext : source = before ++ (skipped ++ l.text) ++ rest.flatMap Lexeme.text := by
          simpa using hsource
        have hrest := ih hnext t
        rw [← List.append_assoc] at hrest
        rw [add_of_isSkipped hskipped]
        exact hrest
      · have hnext : source = (before ++ skipped) ++ l.text ++ rest.flatMap Lexeme.text := by
          simpa using hsource
        simp only [hmove]
        exact ih hnext _

/-- The tracker is refused on its way if not all places of the source can be stored. -/
theorem trackFrom_eq_error {source before skipped : List Char} {ls : List Lexeme}
    (hsource : source = before ++ skipped ++ ls.flatMap Lexeme.text)
    (hbefore : Location.start.Counts before) (h : ¬Location.start.Counts source)
    (t : Tokenization) :
    t.trackFrom source (Location.start.advance before) (byteSize (before ++ skipped)) ls =
      .error .overflow := by
  induction ls generalizing t before skipped with
  | nil =>
      have hend : source = before ++ skipped ++ [] := by simpa using hsource
      have hmove := Location.moveTo_eq hend
      rw [List.append_nil] at hend
      rw [hend, Location.counts_append, not_and] at h
      rw [Location.walk_of_not_counts (h hbefore), ← hend] at hmove
      rw [trackFrom, hmove]
  | cons l rest ih =>
      rw [List.flatMap_cons] at hsource
      have hmove := Location.moveTo_eq hsource
      rw [trackFrom, ← byteSize_append]
      split
      · have hnext : source = before ++ (skipped ++ l.text) ++ rest.flatMap Lexeme.text := by
          simpa using hsource
        rw [List.append_assoc]
        exact ih hnext hbefore t
      · by_cases hway : (Location.start.advance before).Counts skipped
        · have hnext : source = (before ++ skipped) ++ l.text ++ rest.flatMap Lexeme.text := by
            simpa using hsource
          rw [hmove, Location.walk_of_counts hway, ← Location.advance_append]
          exact ih hnext (Location.counts_append.mpr ⟨hbefore, hway⟩) _
        · rw [hmove, Location.walk_of_not_counts hway]

/-- The tracker finds all places of a source if they can be stored. -/
theorem track_of_counts {source : String} (h : Location.start.Counts source.toList) :
    track source = .ok (tokenize source) :=
  @trackFrom_eq source.toList [] [] _ (text_lexemes _).symm h (.unread source)

theorem track_of_not_counts {source : String} (h : ¬Location.start.Counts source.toList) :
    track source = .error .overflow :=
  @trackFrom_eq_error source.toList [] [] _ (text_lexemes _).symm (Location.counts_nil _) h
    (.unread source)

/-- The tracker finds all places of a source with fewer bytes than the largest offset. -/
theorem track_eq_tokenize {source : String} (h : source.utf8ByteSize < SourceFault.maxBytes) :
    track source = .ok (tokenize source) := by
  rw [← byteSize_toList] at h
  exact track_of_counts (Location.counts_of_lt h)

end Tokenization

end LoxReader
