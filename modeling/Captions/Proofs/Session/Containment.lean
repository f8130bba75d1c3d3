import Captions.Proofs.Board.Bounds
import Captions.Proofs.Session.Residue

/-! # What reaches the display

Whatever the lines of an input are made of, nothing of them reaches the display but words of
letters, and nothing else is painted there but blanks over such words. A record remembers only
texts that were painted, so no blanks are painted where no text was.
-/

namespace Captions

namespace Text

/-- One word or more, with one space between two of them. -/
def IsPhrase (text : String) : Prop :=
  ∃ ws, ws ≠ [] ∧ (∀ word ∈ ws, IsWord word) ∧ text.toList = unwords ws

theorem IsPhrase.length_pos {text : String} (hphrase : IsPhrase text) : 0 < text.length := by
  obtain ⟨ws, hne, hwords, htext⟩ := hphrase
  rw [← String.length_toList, htext, List.length_pos_iff]
  intro hempty
  have hws := words_unwords hwords
  rw [hempty] at hws
  exact hne hws.symm

end Text

/-- What a call to a display may do when some cues have been scheduled and some calls were made
earlier. -/
def Call.IsContained (viewport : Viewport) (cues : List Cue) (earlier : List Call) : Call → Prop
  | move target =>
    target = .origin ∨
      target.column.toNat < viewport.width.toNat ∧ target.row.toNat < viewport.height.toNat
  | paint text color =>
    -- It is the text of a cue, or it covers one that has been painted.
    (Text.IsPhrase text ∧ ∃ cue ∈ cues, cue.text = text) ∨
      (color = .default ∧ ∃ cue ∈ cues, (∃ shade, .paint cue.text shade ∈ earlier) ∧
        0 < cue.text.length ∧ text = Board.blank cue.text.length)
  | flush => True

/-- Calls each of which does what it may after those before it. -/
def Call.AllContained (viewport : Viewport) (cues : List Cue) (earlier : List Call) :
    List Call → Prop
  | [] => True
  | call :: rest =>
    call.IsContained viewport cues earlier ∧ AllContained viewport cues (earlier ++ [call]) rest

/-- Every text of the record is that of a cue and has been painted. -/
def Shown.IsPainted (cues : List Cue) (earlier : List Call) (shown : Shown) : Prop :=
  ∀ (text : String) (placement : Placement), shown.find? text = some placement →
    (∃ cue ∈ cues, cue.text = text) ∧ ∃ color, .paint text color ∈ earlier

section Contained

variable {viewport : Viewport} {cues : List Cue} {earlier : List Call}

theorem Call.IsContained.mono {call : Call} (hcall : call.IsContained viewport cues earlier)
    (later : List Call) : call.IsContained viewport cues (earlier ++ later) := by
  cases call with
  | move target => exact hcall
  | paint text color =>
      rcases hcall with hphrase | ⟨hcolor, cue, hcue, ⟨shade, hpainted⟩, hblank⟩
      · exact .inl hphrase
      · exact .inr ⟨hcolor, cue, hcue, ⟨shade, List.mem_append_left later hpainted⟩, hblank⟩
  | flush => trivial

theorem Call.AllContained.of_forall {calls : List Call}
    (hcalls : ∀ call ∈ calls, call.IsContained viewport cues earlier) :
    AllContained viewport cues earlier calls := by
  induction calls generalizing earlier with
  | nil => trivial
  | cons call rest ih =>
      obtain ⟨hfirst, hrest⟩ := List.forall_mem_cons.mp hcalls
      refine ⟨hfirst, ih ?_⟩
      intro other hother
      exact (hrest other hother).mono [call]

theorem Call.AllContained.append {first second : List Call}
    (hfirst : AllContained viewport cues earlier first)
    (hsecond : AllContained viewport cues (earlier ++ first) second) :
    AllContained viewport cues earlier (first ++ second) := by
  induction first generalizing earlier with
  | nil =>
      rw [List.append_nil] at hsecond
      exact hsecond
  | cons call rest ih =>
      refine ⟨hfirst.1, ih hfirst.2 ?_⟩
      rw [← List.append_cons]
      exact hsecond

theorem Shown.IsPainted.mono {shown : Shown} (hpainted : shown.IsPainted cues earlier)
    (others : List Cue) (later : List Call) :
    shown.IsPainted (cues ++ others) (earlier ++ later) := by
  intro text placement hplace
  obtain ⟨⟨cue, hcue, htext⟩, color, hmem⟩ := hpainted text placement hplace
  exact ⟨⟨cue, List.mem_append_left others hcue, htext⟩, color, List.mem_append_left later hmem⟩

theorem Call.isContained_of_mem_park : ∀ call ∈ Board.park,
    call.IsContained viewport cues earlier := by
  intro call hcall
  simp only [Board.park, List.mem_cons, List.not_mem_nil, or_false] at hcall
  rcases hcall with rfl | rfl
  · exact .inl rfl
  · trivial

/-- What an action asks for is contained, if a show is for one of the cues. -/
theorem Action.isContained_of_mem_calls {frame : Frame} {shown : Shown} {action : Action}
    (hframe : Frame.ofViewport? viewport = some frame)
    (hphrases : ∀ cue ∈ cues, Text.IsPhrase cue.text)
    (hpainted : shown.IsPainted cues earlier)
    (hcue : ∀ cue, action = .showCue cue → cue ∈ cues) :
    ∀ call ∈ action.calls frame shown, call.IsContained viewport cues earlier := by
  intro call hcall
  cases action with
  | showCue cue =>
      rw [calls] at hcall
      split at hcall
      next color _ =>
        rcases List.mem_append.mp hcall with hpaint | hpark
        · have hwithin := Frame.layout_lt hframe (cue.placement.getD .centered) cue.text.length
          simp only [Board.paintAt, List.mem_cons, List.not_mem_nil, or_false] at hpaint
          rcases hpaint with rfl | rfl
          · exact .inr hwithin
          · exact .inl ⟨hphrases cue (hcue cue rfl), cue, hcue cue rfl, rfl⟩
        · exact Call.isContained_of_mem_park call hpark
      next => cases hcall
  | hideText text =>
      rw [calls] at hcall
      split at hcall
      next => cases hcall
      next placement hplace =>
        rcases List.mem_append.mp hcall with hpaint | hpark
        · have hwithin := Frame.layout_lt hframe placement text.length
          obtain ⟨⟨cue, hmem, rfl⟩, hearlier⟩ := hpainted text placement hplace
          simp only [Board.paintAt, List.mem_cons, List.not_mem_nil, or_false] at hpaint
          rcases hpaint with rfl | rfl
          · exact .inr hwithin
          · exact .inr ⟨rfl, cue, hmem, hearlier, (hphrases cue hmem).length_pos, rfl⟩
        · exact Call.isContained_of_mem_park call hpark

end Contained

namespace Session

variable {viewport : Viewport} {frame : Frame} {cues : List Cue} {already : List Call}
  {session : Session Recorder}

/-- All that the recorder has written down is contained, and the record remembers only what was
painted, when some calls were made before. -/
structure Contains (viewport : Viewport) (cues : List Cue) (already : List Call)
    (session : Session Recorder) : Prop where
  calls : Call.AllContained viewport cues already session.board.display.calls.toList
  shown : session.board.shown.IsPainted cues (already ++ session.board.display.calls.toList)

/-- A text goes on the record only if it is painted. -/
theorem exists_paint_of_mark {action : Action} {text : String} {placement : Placement}
    (hmark : session.mark action = .drawn text placement) :
    ∃ cue color, action = .showCue cue ∧ cue.text = text ∧
      .paint text color ∈ (session.act action).2.board.display.calls.toList := by
  cases action with
  | showCue cue =>
      cases hcolor : Color.resolve cue.color with
      | error error =>
          simp only [mark, hcolor] at hmark
          cases hmark
      | ok color =>
          simp only [mark, hcolor] at hmark
          split at hmark
          next haccepts =>
            cases hmark
            refine ⟨cue, color, rfl, rfl, ?_⟩
            rw [display_act]
            simp only [Action.calls, hcolor]
            exact Recorder.mem_calls_carryOut_append (of_decide_eq_true haccepts) Board.park
              (List.mem_cons_of_mem _ List.mem_cons_self)
          next => cases hmark
  | hideText other =>
      rw [mark] at hmark
      dsimp only at hmark
      split at hmark
      next => cases hmark
      next =>
        split at hmark
        next => cases hmark
        next => cases hmark

/-- Carrying out an action keeps all of it. -/
theorem Contains.act (hcontains : session.Contains viewport cues already)
    (hframe : Frame.ofViewport? viewport = some session.board.frame)
    (hphrases : ∀ cue ∈ cues, Text.IsPhrase cue.text) {action : Action}
    (hcue : ∀ cue, action = .showCue cue → cue ∈ cues) :
    (session.act action).2.Contains viewport cues already := by
  obtain ⟨made, hmade, htape⟩ := Recorder.exists_calls_carryOut
    (action.calls session.board.frame session.board.shown) session.board.display
  rw [← display_act] at htape
  refine ⟨?_, ?_⟩
  · rw [htape]
    refine hcontains.calls.append (.of_forall ?_)
    intro call hcall
    exact Action.isContained_of_mem_calls hframe hphrases hcontains.shown hcue call
      (hmade.subset hcall)
  · intro text placement hplace
    rw [shown_act] at hplace
    -- Either the action has put the text there, or it was there before.
    by_cases hconcerns : (session.mark action).Concerns text
    · have hmark := (Mark.find?_apply_of_concerns hconcerns).mp hplace
      obtain ⟨cue, color, haction, htext, hpaint⟩ := exists_paint_of_mark hmark
      exact ⟨⟨cue, hcue cue haction, htext⟩, color, List.mem_append_right already hpaint⟩
    · rw [Mark.find?_apply_of_not_concerns hconcerns] at hplace
      obtain ⟨hmem, color, hpaint⟩ := hcontains.shown text placement hplace
      refine ⟨hmem, color, ?_⟩
      rw [htape, ← List.append_assoc]
      exact List.mem_append_left made hpaint

theorem Contains.actAll {triggers : List Trigger}
    (hcontains : session.Contains viewport cues already)
    (hframe : Frame.ofViewport? viewport = some session.board.frame)
    (hphrases : ∀ cue ∈ cues, Text.IsPhrase cue.text)
    (hcues : ∀ trigger ∈ triggers, ∀ cue, trigger.action = .showCue cue → cue ∈ cues) :
    (session.actAll triggers).2.Contains viewport cues already := by
  induction triggers generalizing session with
  | nil => exact hcontains
  | cons trigger rest ih =>
      obtain ⟨hfirst, hrest⟩ := List.forall_mem_cons.mp hcues
      rw [Session.actAll]
      split
      next =>
        refine ih (hcontains.act hframe hphrases hfirst) ?_ hrest
        rw [frame_act]
        exact hframe
      next => exact hcontains

/-- The cues of a script are words. -/
theorem isPhrase_of_mem_scheduled {past : List Step} {cue : Cue} (hcue : cue ∈ scheduled past) :
    Text.IsPhrase cue.text := by
  obtain ⟨step, _, hstep⟩ := List.mem_flatMap.mp hcue
  obtain ⟨line, hline⟩ := Step.exists_line_of_mem_cues hstep
  exact (Cue.wellFormed_of_parse hline).text_words

/-- A step makes contained calls, and its record remembers only what was painted. -/
theorem contains_step (hframe : Frame.ofViewport? viewport = some frame) {past : List Step}
    (hpainted : ((opening frame).play past).board.shown.IsPainted (scheduled past)
      ((opening frame).calls past)) (step : Step) :
    (((opening frame).play past).step step).2.Contains viewport (scheduled past)
      ((opening frame).calls past) := by
  have hrewound : (((opening frame).play past).mapDisplay Recorder.rewind).Contains viewport
      (scheduled past) ((opening frame).calls past) := by
    refine ⟨trivial, ?_⟩
    have htape := hpainted.mono [] []
    rw [List.append_nil] at htape
    exact htape
  by_cases hfires : step.fires
  · obtain ⟨_, hboard, _⟩ := step_eq_actAll ((opening frame).play past) hfires
    have hown : Frame.ofViewport? viewport =
        some (((opening frame).play past).mapDisplay Recorder.rewind).board.frame :=
      hframe.trans (congrArg some (frame_play (opening frame) past).symm)
    have hcues : ∀ trigger ∈ (((opening frame).play past).step step).1.fired, ∀ cue,
        trigger.action = .showCue cue → cue ∈ scheduled past := by
      intro trigger htrigger cue haction
      obtain ⟨⟨harmed, _⟩, _⟩ :=
        ((follows_play ⟨frame, {}, {}⟩ past).mem_fired_of_fires hfires).mp htrigger
      exact Trigger.mem_cues_of_showCue harmed haction
    have hacted := hrewound.actAll hown (fun cue hcue => isPhrase_of_mem_scheduled hcue) hcues
    refine ⟨?_, ?_⟩
    · rw [hboard]
      exact hacted.calls
    · rw [hboard]
      exact hacted.shown
  · obtain ⟨_, _, hshown, _⟩ := step_of_not_fires ((opening frame).play past) hfires
    have hcalls := (calls_step_of_not_fires ((opening frame).play past) hfires).1
    rw [calls_step] at hcalls
    refine ⟨?_, ?_⟩
    · rw [hcalls]
      trivial
    · rw [hcalls, hshown]
      exact hrewound.shown

/-- At every time the record remembers only what was painted. -/
theorem isPainted_play (hframe : Frame.ofViewport? viewport = some frame) (past : List Step) :
    ((opening frame).play past).board.shown.IsPainted (scheduled past)
      ((opening frame).calls past) := by
  induction past using List.reverseRecOn with
  | nil => exact nofun
  | append_singleton past step ih =>
      have hshown := (contains_step hframe ih step).shown
      rw [← calls_step, ← calls_concat, ← play_concat] at hshown
      rw [scheduled_concat]
      have hgrown := hshown.mono step.cues []
      rw [List.append_nil] at hgrown
      exact hgrown

/-- Whatever the lines of a script are and whatever fails or is cancelled, each call of each
step is contained. -/
theorem calls_contained (hframe : Frame.ofViewport? viewport = some frame) (past : List Step)
    (step : Step) :
    Call.AllContained viewport (scheduled past) ((opening frame).calls past)
      (((opening frame).play past).step step).1.calls := by
  rw [calls_step]
  exact (contains_step hframe (isPainted_play hframe past) step).calls

/-- An escape sequence among the bytes of a line leaves no more than its letter. -/
theorem calls_contained_escape_sequence :
    Frame.ofViewport? ⟨80, 24⟩ = some ⟨⟨80, 24⟩, 20, 6, 59, 17⟩ ∧
      Call.AllContained ⟨80, 24⟩
        (scheduled [.ingest [.ok "00:00 00:01 \x1b[2JHi", .error .notUtf8],
          .failAfter (some 6), .advance 0])
        ((opening ⟨⟨80, 24⟩, 20, 6, 59, 17⟩).calls
          [.ingest [.ok "00:00 00:01 \x1b[2JHi", .error .notUtf8], .failAfter (some 6), .advance 0])
        [.move ⟨39, 11⟩, .paint "   " .default] := by
  have hframe : Frame.ofViewport? ⟨80, 24⟩ = some ⟨⟨80, 24⟩, 20, 6, 59, 17⟩ := by decide
  have hcontained := calls_contained hframe
    [.ingest [.ok "00:00 00:01 \x1b[2JHi", .error .notUtf8], .failAfter (some 6), .advance 0] .finish
  have hcalls : (((opening ⟨⟨80, 24⟩, 20, 6, 59, 17⟩).play
      [.ingest [.ok "00:00 00:01 \x1b[2JHi", .error .notUtf8], .failAfter (some 6),
        .advance 0]).step .finish).1.calls = [.move ⟨39, 11⟩, .paint "   " .default] := by
    decide +kernel
  rw [hcalls] at hcontained
  exact ⟨hframe, hcontained⟩

end Session

end Captions
