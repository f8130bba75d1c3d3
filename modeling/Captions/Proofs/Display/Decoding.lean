import Captions.Display.Terminal.Decoder
import Captions.Proofs.Cue.WellFormed
import Captions.Proofs.Text.Lines

/-! # Terminal output can be read back

Every sequence that a terminal is given starts with the escape character, and no painted text holds
one. So the output falls into the pieces that were written for the calls, each of them says which
call it was written for, and the calls can be told from the bytes.
-/

namespace Captions

/-- The call moves the caret to a cell whose number on the wire does not start over, or it paints
text without escape characters. -/
def Call.IsReadable : Call → Prop
  | move target => target.column.toNat < 65535 ∧ target.row.toNat < 65535
  | paint text _ => Terminal.escape ∉ text.toList
  | flush => False

namespace Text

theorem utf8_injective {first second : String} (h : utf8 first = utf8 second) : first = second := by
  have hdecoded := decodeLine_utf8 first
  rw [h, decodeLine_utf8] at hdecoded
  exact (Except.ok.inj hdecoded).symm

theorem escape_notMem_toString (n : Nat) : Terminal.escape ∉ (toString n).toList := fun hmem =>
  absurd (isDigit_of_mem_toString hmem) (by decide)

end Text

namespace Terminal

/-- What is written for a call behind each escape character. -/
def segments : Call → List (List Char)
  | .move target => [(moveTo target).toList.drop 1]
  | .paint text color =>
    [(foreground color).toList.drop 1 ++ text.toList, resetColors.toList.drop 1]
  | .flush => []

theorem toList_encode (call : Call) :
    (encode call).toList = (segments call).flatMap (escape :: ·) := by
  cases call with
  | move target => simp [encode, segments, moveTo, sequence, escape]
  | paint text color => simp [encode, segments, foreground, resetColors, sequence, escape]
  | flush => rfl

theorem escape_notMem_drop_moveTo (target : Position) :
    escape ∉ (moveTo target).toList.drop 1 := by
  simp only [drop_moveTo, List.mem_cons, List.mem_append, List.not_mem_nil, or_false, not_or]
  exact ⟨by decide, Text.escape_notMem_toString _, by decide, Text.escape_notMem_toString _,
    by decide⟩

theorem escape_notMem_drop_foreground (color : Color) :
    escape ∉ (foreground color).toList.drop 1 := by
  cases color <;> decide

theorem escape_notMem_segments {call : Call} (hcall : call.IsReadable) :
    ∀ segment ∈ segments call, escape ∉ segment := by
  cases call with
  | move target => exact List.forall_mem_singleton.mpr (escape_notMem_drop_moveTo target)
  | paint text color =>
      refine List.forall_mem_cons.mpr ⟨fun hmem => ?_, List.forall_mem_singleton.mpr (by decide)⟩
      exact (List.mem_append.mp hmem).elim (escape_notMem_drop_foreground color) hcall
  | flush => exact hcall.elim

/-- Pieces that each follow an escape character are the pieces that are found. -/
theorem pieces_flatMap {segments : List (List Char)} (h : ∀ segment ∈ segments, escape ∉ segment) :
    pieces (segments.flatMap (escape :: ·)) = [] :: segments := by
  have hstart (text : List Char) : pieces (escape :: text) = [] :: pieces text := if_pos rfl
  induction segments with
  | nil => rfl
  | cons segment rest ih =>
      obtain ⟨hsegment, hrest⟩ := List.forall_mem_cons.mp h
      rw [List.flatMap_cons, List.cons_append, hstart]
      cases rest with
      | nil => rw [List.flatMap_nil, List.append_nil, pieces_of_no_escape hsegment]
      | cons next rest =>
          -- The next segment begins with an escape character, which ends this one.
          have hpieces := ih hrest
          rw [List.flatMap_cons, List.cons_append, hstart, List.cons.injEq] at hpieces
          rw [List.flatMap_cons, List.cons_append, pieces_append_escape _ hsegment, hpieces.2]

/-- The pieces written for calls say which calls they were. -/
theorem calls?_flatMap {calls : List Call} (h : ∀ call ∈ calls, call.IsReadable) :
    calls? (calls.flatMap segments) = some calls := by
  induction calls with
  | nil => rfl
  | cons call rest ih =>
      obtain ⟨hcall, hrest⟩ := List.forall_mem_cons.mp h
      have hrest := ih hrest
      cases call with
      | move target =>
          obtain ⟨hcolumn, hrow⟩ := hcall
          have htarget := target?_moveTo target (fun heq => by simp [heq] at hcolumn)
            (fun heq => by simp [heq] at hrow)
          rw [List.flatMap_cons, segments, List.singleton_append, calls?_move htarget, hrest]
          rfl
      | paint text color =>
          have hreset : resetColors.toList.drop 1 = ['[', '0', 'm'] := by decide
          have hpaint := painted?_foreground color text.toList
          rw [String.ofList_toList] at hpaint
          rw [List.flatMap_cons, segments, hreset, List.cons_append, List.singleton_append,
            calls?_paint (target?_foreground color _) hpaint, hrest]
          rfl
      | flush => exact hcall.elim

/-- What an empty terminal is given for calls. -/
def written (calls : List Call) : String :=
  (carryOut calls ({} : Terminal)).2.out

theorem written_eq_join (calls : List Call) : written calls = String.join (calls.map encode) := by
  rw [written, carryOut_plugged]
  exact String.empty_append

theorem written_cons (call : Call) (rest : List Call) :
    written (call :: rest) = encode call ++ written rest := by
  rw [written_eq_join, written_eq_join, List.map_cons, String.join_cons]

theorem toList_written (calls : List Call) :
    (written calls).toList = (calls.flatMap segments).flatMap (escape :: ·) := by
  induction calls with
  | nil => rfl
  | cons call rest ih =>
      rw [written_cons, String.toList_append, toList_encode, ih, List.flatMap_cons,
        List.flatMap_append]

theorem decode?_written {calls : List Call} (h : ∀ call ∈ calls, call.IsReadable) :
    decode? (written calls) = some calls := by
  have hsegments : ∀ segment ∈ calls.flatMap segments, escape ∉ segment := by
    intro segment hmem
    obtain ⟨call, hcall, hsegment⟩ := List.mem_flatMap.mp hmem
    exact escape_notMem_segments (h call hcall) segment hsegment
  rw [decode?, toList_written, pieces_flatMap hsegments]
  exact calls?_flatMap h

theorem written_injective {calls others : List Call} (hcalls : ∀ call ∈ calls, call.IsReadable)
    (hothers : ∀ call ∈ others, call.IsReadable)
    (h : Text.utf8 (written others) = Text.utf8 (written calls)) : others = calls := by
  have hdecoded := decode?_written hothers
  rw [Text.utf8_injective h, decode?_written hcalls] at hdecoded
  exact (Option.some.inj hdecoded).symm

/-- The text of a cue that was read from a line can be painted and read back. -/
theorem isReadable_of_parse {line : String} {cue : Cue} (hparse : Cue.parse line = .ok cue)
    (color : Color) : (Call.paint cue.text color).IsReadable := by
  obtain ⟨ws, _, hws, htext⟩ := (Cue.wellFormed_of_parse hparse).text_words
  intro hmem
  rw [htext] at hmem
  exact absurd (Text.isAlpha_or_eq_space_of_mem_unwords hws hmem) (by decide)

/-- What a terminal is given for calls is read as these calls, so no other calls have the same
bytes. The text of a cue is read as text, whatever was written before it and is written after it. -/
theorem output_tells_calls {calls : List Call} (hcalls : ∀ call ∈ calls, call.IsReadable) :
    (carryOut calls ({} : Terminal)).1 = .done ∧ decode? (written calls) = some calls ∧
      (∀ others : List Call, (∀ call ∈ others, call.IsReadable) →
        Text.utf8 (written others) = Text.utf8 (written calls) → others = calls) ∧
      ∀ (line : String) (cue : Cue) (color : Color) (later : List Call),
        Cue.parse line = .ok cue → (∀ call ∈ later, call.IsReadable) →
        decode? (written (calls ++ .paint cue.text color :: later)) =
          some (calls ++ .paint cue.text color :: later) := by
  refine ⟨?_, decode?_written hcalls, fun others hothers => written_injective hcalls hothers, ?_⟩
  · rw [carryOut_plugged]
  · intro line cue color later hparse hlater
    refine decode?_written (List.forall_mem_append.mpr ⟨hcalls, ?_⟩)
    exact List.forall_mem_cons.mpr ⟨isReadable_of_parse hparse color, hlater⟩

theorem output_tells_calls_misleading_text :
    decode? "\x1b[65535;1H\x1b[38;5;9m[38;5;1m0;1H\x1b[0m\x1b[38;5;8m\x1b[0m" =
      some [.move ⟨0, 65534⟩, .paint "[38;5;1m0;1H" .red, .paint "" .darkGrey] := by
  have hcalls : ∀ call ∈ [.move ⟨0, 65534⟩, .paint "[38;5;1m0;1H" .red, .paint "" .darkGrey],
      Call.IsReadable call := by
    refine List.forall_mem_cons.mpr ⟨⟨by decide, by decide⟩, ?_⟩
    have htext : Terminal.escape ∉ "[38;5;1m0;1H".toList := by decide
    exact List.forall_mem_cons.mpr ⟨htext, List.forall_mem_singleton.mpr List.not_mem_nil⟩
  obtain ⟨_, hdecoded, _⟩ := output_tells_calls hcalls
  exact hdecoded

end Terminal

end Captions
