import Legalise.Assistant.StreamClient

/-!
This module contains what arrives in the browser of a turn that is streamed, and when it is what the turn has emitted,
with one terminal event at the end.
-/

namespace AssistantStream

open JavaScript
open JsonText (dumpsLine dumpsFloat Printable)

section Lines

variable {R : PyRepr}

/--
A printable text without spaces at its ends is trimmed to itself.
-/
theorem trim_units {s : PyStr} (hs : Printable s) (hhead : ∀ c, s.head? = some c → 0x20 < c.val)
    (hlast : ∀ c, s.getLast? = some c → 0x20 < c.val) : trim (units s) = units s := by
  apply trim_eq_self
  . intro c hc
    unfold units at hc
    rw [List.head?_map, Option.map_eq_some_iff] at hc
    obtain ⟨d, hd, heq⟩ := hc
    rw [← heq]
    exact isSpace_unit ⟨hhead d hd, (hs d (List.mem_of_head? hd)).right⟩
  . intro c hc
    unfold units at hc
    rw [List.getLast?_map, Option.map_eq_some_iff] at hc
    obtain ⟨d, hd, heq⟩ := hc
    rw [← heq]
    exact isSpace_unit ⟨hlast d hd, (hs d (List.mem_of_getLast? hd)).right⟩

theorem trim_name (name : EventName) : trim (units name.str) = units name.str := by
  cases name with
  | milestone m => cases m <;> decide +kernel
  | result => decide +kernel
  | error => decide +kernel

theorem trim_data (hR : ∀ x, Printable (dumpsFloat R x)) (data : Dict)
    : trim (units (dumpsLine R (.dict data))) = units (dumpsLine R (.dict data)) := by
  have ⟨body, hbody⟩ := @JsonText.dumpsLine_dict R data
  apply trim_units (JsonText.printable_dumpsLine hR _)
  . intro c hc
    rw [hbody, List.head?_cons, Option.some_inj] at hc
    rw [← hc]
    decide
  . intro c hc
    rw [hbody, ← List.cons_append, List.getLast?_concat, Option.some_inj] at hc
    rw [← hc]
    decide

theorem readField_eq (field value : JsString) : readField field (field ++ space :: value) = some (trim value) := by
  unfold readField
  rw [if_pos (List.prefix_append _ _), List.drop_left, trim_space_cons]

theorem readField_eq_none {field line : JsString} (h : ¬ field <+: line) : readField field line = none :=
  if_neg h

theorem readLine_event (frame : Frame) (value : JsString)
    : readLine frame (js "event:" ++ space :: value) = { frame with event := trim value } := by
  unfold readLine
  rw [readField_eq]

theorem readLine_data (frame : Frame) (value : JsString)
    : readLine frame (js "data:" ++ space :: value) = { frame with dataLines := frame.dataLines ++ [trim value] } := by
  have hnot : ¬ js "event:" <+: js "data:" ++ space :: value := by
    intro h
    have := (List.cons_prefix_cons.mp h).left
    revert this
    decide
  unfold readLine
  rw [readField_eq_none hnot, readField_eq]

/--
The lines of a frame.
-/
theorem units_frameText (R : PyRepr) (e : Event)
    : units (frameText R e)
        = (js "event:" ++ space :: units e.name.str) ++ newline
          :: (js "data:" ++ space :: units (dumpsLine R (.dict e.data))) := by
  have hevent : units (py "event: ") = js "event:" ++ [space] := by
    decide
  have hdata : units (py "\ndata: ") = newline :: (js "data:" ++ [space]) := by
    decide
  unfold frameText
  rw [units_append, units_append, units_append, hevent, hdata]
  simp

theorem newline_notMem_line {field : JsString} (hfield : newline ∉ field) {s : PyStr} (hs : Printable s)
    : newline ∉ field ++ space :: units s := by
  have hspace : newline ≠ space := by
    decide
  simp [hfield, hspace, newline_notMem_units hs]

theorem notMem_eventLine (e : Event) : newline ∉ js "event:" ++ space :: units e.name.str :=
  newline_notMem_line (by decide) (printable_name e.name)

theorem notMem_dataLine (hR : ∀ x, Printable (dumpsFloat R x)) (data : Dict)
    : newline ∉ js "data:" ++ space :: units (dumpsLine R (.dict data)) :=
  newline_notMem_line (by decide) (JsonText.printable_dumpsLine hR _)

/--
A frame is read as the name of its event and one line of data.
-/
theorem readFrame_frameText (hR : ∀ x, Printable (dumpsFloat R x)) (e : Event)
    : readFrame (units (frameText R e)) = ⟨units e.name.str, [units (dumpsLine R (.dict e.data))]⟩ := by
  unfold readFrame
  rw [units_frameText, List.splitOn_append_cons_self_of_not_mem (notMem_eventLine e),
    List.splitOn_eq_singleton (notMem_dataLine hR e.data), List.foldl_cons, List.foldl_cons, List.foldl_nil,
    readLine_event, readLine_data, trim_name, trim_data hR]
  rfl

theorem reads_frameText {V : Type} {parse : JsString → Option V} {value : V}
    (hR : ∀ x, Printable (dumpsFloat R x)) {e : Event}
    (hparse : parse (units (dumpsLine R (.dict e.data))) = some value)
    : Reads parse (units (frameText R e)) (units e.name.str, value) := by
  unfold Reads
  rw [readFrame_frameText hR]
  refine ⟨rfl, List.cons_ne_nil _ _, ?_⟩
  rw [List.intercalate_singleton]
  exact hparse

end Lines

section Cut

variable {R : PyRepr}

/--
There is one newline in a frame, and a brace at its end, so that the next separator is the one right behind it.
-/
theorem cut_frameText (hR : ∀ x, Printable (dumpsFloat R x)) (e : Event) (rest : JsString)
    : Cut.cut separator (units (frameText R e) ++ separator ++ rest) = some (units (frameText R e), rest) := by
  have ⟨body, hbody⟩ := @JsonText.dumpsLine_dict R e.data
  have hunits : units (JsonText.openBrace :: (body ++ [JsonText.closeBrace]))
      = units (JsonText.openBrace :: body) ++ [0x7D] :=
    units_append (JsonText.openBrace :: body) [JsonText.closeBrace]
  have hdata := notMem_dataLine hR e.data
  rw [hbody, hunits] at hdata
  have hframe : units (frameText R e)
      = ((js "event:" ++ space :: units e.name.str) ++ newline
        :: (js "data:" ++ space :: units (JsonText.openBrace :: body))) ++ [0x7D] := by
    rw [units_frameText, hbody, hunits]
    simp only [List.cons_append, List.append_assoc]
  rw [hframe, List.append_assoc, List.append_assoc, List.singleton_append]
  refine Cut.cut_append_separator (fun hinfix => ?_) (by decide) separator_ne_nil rest
  -- Two newlines do not fit into a text with one.
  have hcount := hinfix.sublist.count_le newline
  have hevent := List.count_eq_zero.mpr (notMem_eventLine e)
  have hbefore : newline ∉ js "data:" ++ space :: units (JsonText.openBrace :: body) :=
    fun h => hdata (by
      rw [← List.cons_append, ← List.append_assoc]
      exact List.mem_append_left _ h)
  rw [List.count_append, hevent, List.count_cons_self, List.count_eq_zero.mpr hbefore] at hcount
  exact absurd hcount (by decide)

theorem units_sseText (R : PyRepr) (e : Event) : units (sseText R e) = units (frameText R e) ++ separator := by
  have hend : units (py "\n\n") = separator := by
    decide
  unfold sseText frameText
  rw [units_append, hend]

end Cut

section Delivery

variable {V : Type} {parse : JsString → Option V} {D : TextDecoder} {R : PyRepr} {value : Dict → V}
  {events : List Event} {frames : List Bytes}

theorem reads_rightUnique : Relator.RightUnique (Reads parse) := by
  intro frame event event' ⟨hname, _, hdata⟩ ⟨hname', _, hdata'⟩
  rw [hdata, Option.some_inj] at hdata'
  exact Prod.ext (hname.symm.trans hname') hdata'

/--
The bytes that are sent: the frames of the events, with a separator behind each.
-/
theorem textOf_frames (hR : ∀ x, Printable (dumpsFloat R x)) (h : events.mapM (sseFormat R) = some frames)
    : (∀ b ∈ frames.flatten, b.val < 0x80)
        ∧ textOf frames.flatten = (events.map fun e => units (frameText R e)).flatMap fun frame => frame ++ separator := by
  induction events generalizing frames with
  | nil =>
    cases h
    exact ⟨by simp, rfl⟩
  | cons e events ih =>
    rw [List.mapM_cons, sseFormat_eq hR e] at h
    cases hrest : events.mapM (sseFormat R) with
    | none =>
      rw [hrest] at h
      contradiction
    | some rest =>
      rw [hrest] at h
      cases h
      have ⟨hascii, htext⟩ := ih hrest
      refine ⟨?_, ?_⟩
      . rw [List.flatten_cons, List.forall_mem_append]
        refine ⟨fun b hb => ?_, hascii⟩
        have ⟨c, hc, heq⟩ := List.mem_map.mp hb
        rw [← heq, val_byte (ascii_sseText hR e c hc)]
        exact ascii_sseText hR e c hc
      . have happend (a b : Bytes) : textOf (a ++ b) = textOf a ++ textOf b := List.map_append
        rw [List.flatten_cons, happend, textOf_map_byte (ascii_sseText hR e), units_sseText, htext]
        rfl

/--
Whatever the order of the steps of the server, and however the network cuts what it sends, the client yields the events
and comes to its end without an exception.
-/
theorem postAssistantMessageStream_of_sends (hR : ∀ x, Printable (dumpsFloat R x))
    (hparse : ∀ e ∈ events, parse (units (dumpsLine R (.dict e.data))) = some (value e.data))
    (hsends : Sends R events frames) {chunks : List Bytes} (hchunks : chunks.flatten = frames.flatten)
    : ∃ decoder, postAssistantMessageStream parse D chunks
        = ⟨decoder, [], events.map fun e => (units e.name.str, value e.data), false⟩ := by
  have ⟨hascii, htext⟩ := textOf_frames hR hsends.mapM_eq
  have hsplit : Framing.split separator (textOf chunks.flatten)
      = (events.map fun e => units (frameText R e), []) := by
    rw [hchunks, htext]
    refine Framing.split_flatMap separator_ne_nil fun frame hframe rest => ?_
    have ⟨e, _, heq⟩ := List.mem_map.mp hframe
    rw [← heq]
    exact cut_frameText hR e rest
  have hreads : List.Forall₂ (Reads parse) (events.map fun e => units (frameText R e))
      (events.map fun e => (units e.name.str, value e.data)) := by
    rw [List.forall₂_map_left_iff, List.forall₂_map_right_iff, List.forall₂_same]
    exact fun e he => reads_frameText hR (hparse e he)
  have ⟨got, decoder, hgot, _, heq⟩ := @postAssistantMessageStream_eq V parse D chunks (hchunks ▸ hascii) fun frame hframe => by
    rw [hsplit] at hframe
    have ⟨e, he, hframe⟩ := List.mem_map.mp hframe
    exact ⟨_, hframe ▸ reads_frameText hR (hparse e he)⟩
  rw [hsplit] at hgot heq
  rw [reads_rightUnique.forall₂ hgot hreads] at heq
  exact ⟨decoder, heq⟩

end Delivery

section Turn

variable (R : PyRepr)

/--
Whether the `async with` block is left by an exception.
-/
def Turn.escapes (t : Turn) : Bool :=
  match t.opening, t.thread, t.commit, t.answer with
  | some _, _, _, _ => true
  | none, .error .notFound, _, _ => false
  | none, .error (.raised _), _, _ => true
  | none, .ok _, some _, _ => true
  | none, .ok _, none, .ok _ => false
  | none, .ok _, none, .error (.provider _) => false
  | none, .ok _, none, .error (.other _) => true

/--
An error event shows a message.
-/
def Event.Shown (e : Event) : Prop :=
  ∃ message, Dict.get e.data (py "message") = .str message ∧ message ≠ []

/--
Events with one terminal event, which is the last one and shows a message if it is an error.
-/
def Concluded (events : List Event) : Prop :=
  ∃ progress last, events = progress ++ [last] ∧ (∀ e ∈ progress, e.isTerminal = false) ∧ last.isTerminal = true
    ∧ (last.name = .error → last.Shown)

theorem shown_event_exn (e : Exn) : e.event.Shown := by
  unfold Exn.event Event.Shown
  dsimp only
  split
  . exact ⟨_, Dict.get_cons_self _ _ _, by simp [py]⟩
  . next hmessage => exact ⟨_, Dict.get_cons_self _ _ _, hmessage⟩

theorem shown_threadNotFound : threadNotFound.Shown :=
  ⟨_, Dict.get_cons_self _ _ _, by decide⟩

theorem toStr_dict_ne_nil (detail : Dict) : (Json.dict detail).toStr R ≠ [] := by
  simp [Json.toStr, Json.repr, py]

theorem text_pausedReason_ne_nil (reason : PausedReason) : reason.text R ≠ [] := by
  cases reason <;> simp [PausedReason.text, py]

/--
A provider error names its field `message`, or is a text.
-/
theorem shown_event_provider (e : ProviderError) : (e.event R).Shown := by
  cases e with
  | privilegePaused reason => exact ⟨_, Dict.get_cons_self _ _ _, text_pausedReason_ne_nil R reason⟩
  | providerKeyMissing provider =>
    unfold Event.Shown ProviderError.event ProviderError.http
    dsimp only
    rw [Dict.get_set, if_neg (by decide), Dict.get_set, if_pos rfl]
    refine ⟨_, rfl, ?_⟩
    rw [Dict.get_cons_of_ne (by decide), Dict.get_cons_of_ne (by decide), Dict.get_cons_self]
    simp [Json.truthy, Json.toStr, py]
  | providerUpstream provider code upstreamStatus message =>
    unfold Event.Shown ProviderError.event ProviderError.http
    dsimp only
    rw [Dict.get_set, if_neg (by decide), Dict.get_set, if_pos rfl]
    refine ⟨_, rfl, ?_⟩
    rw [Dict.get_cons_of_ne (by decide), Dict.get_cons_of_ne (by decide), Dict.get_cons_of_ne (by decide),
      Dict.get_cons_self]
    split
    . next htruthy => simpa [Json.truthy, Json.toStr] using htruthy
    . exact toStr_dict_ne_nil R _

theorem ProviderError.name_event (e : ProviderError) : (e.event R).name = .error := by
  cases e <;> rfl

theorem concluded_append {progress : List Event} {last : Event} (hprogress : ∀ e ∈ progress, e.isTerminal = false)
    (hlast : last.name = .result ∨ last.name = .error ∧ last.Shown) : Concluded (progress ++ [last]) := by
  refine ⟨progress, last, rfl, hprogress, ?_, ?_⟩
  . unfold Event.isTerminal
    rcases hlast with hlast | ⟨hlast, _⟩ <;> simp [hlast]
  . intro hname
    rcases hlast with hlast | ⟨_, hshown⟩
    . rw [hlast] at hname
      contradiction
    . exact hshown

/--
Inside of the block, there is one terminal event at the end, or an exception leaves it without any.
-/
theorem Turn.block_spec (t : Turn)
    : if t.escapes then (∀ e ∈ (t.block R).fst, e.isTerminal = false) ∧ ∃ e, (t.block R).snd = some e
      else Concluded (t.block R).fst ∧ (t.block R).snd = none := by
  obtain ⟨slug, opening, thread, commit, milestones, answer, close⟩ := t
  -- What is emitted before the answer is a start and milestones.
  have hmilestones (threadId : Uuid) (e : Event)
      (he : e ∈ (⟨.milestone .turnStart, [(py "slug", .str slug), (py "thread_id", .str threadId.str)]⟩ : Event)
        :: milestones.map fun milestone => ⟨.milestone milestone.fst, milestone.snd⟩) : e.isTerminal = false := by
    rcases List.mem_cons.mp he with heq | hmem
    . rw [heq]
      rfl
    . obtain ⟨m, _, heq⟩ := List.mem_map.mp hmem
      rw [← heq]
      rfl
  cases opening with
  | some e => exact ⟨by simp [Turn.block], e, rfl⟩
  | none =>
    cases thread with
    | error raised =>
      cases raised with
      | notFound => exact ⟨@concluded_append [] threadNotFound (by simp) (.inr ⟨rfl, shown_threadNotFound⟩), rfl⟩
      | raised e => exact ⟨by simp [Turn.block], e, rfl⟩
    | ok threadId =>
      cases commit with
      | some e => exact ⟨by simp [Turn.block], e, rfl⟩
      | none =>
        cases answer with
        | ok response => exact ⟨concluded_append (hmilestones threadId) (.inl rfl), rfl⟩
        | error raised =>
          cases raised with
          | provider e =>
            exact ⟨concluded_append (hmilestones threadId) (.inr ⟨e.name_event R, shown_event_provider R e⟩), rfl⟩
          | other e => exact ⟨hmilestones threadId, e, rfl⟩

/--
A list with anything behind its terminal event is not concluded.
-/
theorem not_concluded_append {events : List Event} (h : Concluded events) (last : Event)
    : ¬ Concluded (events ++ [last]) := by
  intro ⟨progress, last', heq, hprogress, _⟩
  have ⟨before, first, hevents, _, hfirst, _⟩ := h
  have hmem : first ∈ progress := by
    rw [← (List.append_inj' heq rfl).left, hevents]
    simp
  rw [hprogress first hmem] at hfirst
  contradiction

/--
The events of a turn are concluded, unless closing the session raises when there is a terminal event already.
-/
theorem Turn.concluded_run_iff (t : Turn) : Concluded (t.run R) ↔ t.close = none ∨ t.escapes = true := by
  have hspec := t.block_spec R
  unfold Turn.run
  dsimp only
  cases hescapes : t.escapes with
  | true =>
    rw [hescapes, if_pos rfl] at hspec
    have ⟨hevents, e, hraised⟩ := hspec
    rw [hraised]
    have hconcluded (e : Exn) : Concluded ((t.block R).fst ++ [e.event]) :=
      concluded_append hevents (.inr ⟨rfl, shown_event_exn e⟩)
    cases hclose : t.close with
    | none => simpa using hconcluded e
    | some e => simpa using hconcluded e
  | false =>
    rw [hescapes, if_neg Bool.false_ne_true] at hspec
    have ⟨hconcluded, hraised⟩ := hspec
    rw [hraised]
    cases hclose : t.close with
    | none => simpa using hconcluded
    | some e => simpa using not_concluded_append hconcluded e.event

end Turn

section Faithful

variable {V : Type} (parse : JsString → Option V) (D : TextDecoder) (R : PyRepr) (value : Dict → V)

/--
The stream of a request is faithful: wherever the server has got to, it gets to the end of the response; whatever it
has sent then, and however the network has cut it into chunks, the client yields the events as they are, in order, and
ends without an exception; and there is one terminal event, which is the last one.
-/
structure Faithful (events : List Event) : Prop where
  ends : ∀ p, Relation.ReflTransGen (Step R) (Pipe.start events) p
    → ∃ q, Relation.ReflTransGen (Step R) p q ∧ q.closed = true
  yields : ∀ frames chunks, Sends R events frames → chunks.flatten = frames.flatten
    → (postAssistantMessageStream parse D chunks).yielded = events.map (fun e => (units e.name.str, value e.data))
      ∧ (postAssistantMessageStream parse D chunks).threw = false
  concluded : Concluded events

variable {parse D R value}

/--
Provided that `JSON.parse` reads what `json.dumps` writes of the data of the events, the stream of a turn is faithful
unless closing its session raises when the turn has put a terminal event already.
-/
theorem faithful_iff (t : Turn) (hR : ∀ x, Printable (dumpsFloat R x))
    (hparse : ∀ e ∈ t.run R, parse (units (dumpsLine R (.dict e.data))) = some (value e.data))
    : Faithful parse D R value (t.run R) ↔ t.close = none ∨ t.escapes = true := by
  rw [← t.concluded_run_iff R]
  constructor
  . exact Faithful.concluded
  . intro hconcluded
    refine ⟨fun p hreaches => ?_, fun frames chunks hsends hchunks => ?_, hconcluded⟩
    . exact (Pipe.ordered_of_reaches hreaches).exists_closed fun e _ => ⟨_, sseFormat_eq hR e⟩
    . have ⟨_, hclient⟩ := @postAssistantMessageStream_of_sends V parse D R value _ frames hR hparse hsends chunks hchunks
      rw [hclient]
      exact ⟨rfl, rfl⟩

/--
A turn with one milestone and a result, whose session is closed without an exception.
-/
def deltaTurn : Turn where
  slug := py "acme-v-bolt"
  opening := none
  thread := .ok (Uuid.ofNat 1)
  commit := none
  milestones := [(.modelDelta, [(py "text", .str (py "Dear Sir,\n\ndata: £5"))])]
  answer := .ok [(py "thread_id", .null)]
  close := none

/--
`JSON.parse` of the three texts that the turn sends.
-/
def deltaParse (text : JsString) : Option Dict :=
  List.lookup text
    [(js "\x7b\"slug\": \"acme-v-bolt\", \"thread_id\": \"00000000-0000-0000-0000-000000000001\"\x7d",
        [(py "slug", .str (py "acme-v-bolt")), (py "thread_id", .str (py "00000000-0000-0000-0000-000000000001"))]),
      (js "\x7b\"text\": \"Dear Sir,\\n\\ndata: \\u00a35\"\x7d", [(py "text", .str (py "Dear Sir,\n\ndata: £5"))]),
      (js "\x7b\"thread_id\": null\x7d", [(py "thread_id", .null)])]

/--
A decoder of streams that hold ASCII only. It keeps, as the real one does, whether anything has been decoded.
-/
def asciiDecoder : TextDecoder where
  State := Bool
  init := false
  decode began bytes := (began || !bytes.isEmpty, textOf bytes)
  Between _ := True
  between_init := trivial
  ascii _ _ _ _ := ⟨trivial, rfl⟩

theorem faithful_iff_delta
    : Faithful deltaParse asciiDecoder .quoted id (deltaTurn.run .quoted)
        ↔ deltaTurn.close = none ∨ deltaTurn.escapes = true := by
  refine faithful_iff deltaTurn JsonText.printable_dumpsFloat_quoted fun e he => ?_
  have hrun : deltaTurn.run .quoted
      = [⟨.milestone .turnStart, [(py "slug", .str (py "acme-v-bolt")),
          (py "thread_id", .str (py "00000000-0000-0000-0000-000000000001"))]⟩,
        ⟨.milestone .modelDelta, [(py "text", .str (py "Dear Sir,\n\ndata: £5"))]⟩,
        ⟨.result, [(py "thread_id", .null)]⟩] := rfl
  rw [hrun] at he
  simp only [List.mem_cons, List.not_mem_nil, or_false] at he
  rcases he with rfl | rfl | rfl <;> rfl

/--
The thread is refused, and then the rollback of the session's transaction raises because the connection is gone.
-/
def lostTurn : Turn where
  slug := py "acme-v-bolt"
  opening := none
  thread := .error .notFound
  commit := none
  milestones := []
  answer := .ok []
  close := some ⟨py "connection is closed", py "InterfaceError"⟩

theorem lost_not_faithful : ¬ Faithful deltaParse asciiDecoder .quoted id (lostTurn.run .quoted) := by
  intro h
  have hrefused : Concluded [threadNotFound] :=
    @concluded_append [] threadNotFound (by simp) (.inr ⟨rfl, shown_threadNotFound⟩)
  exact not_concluded_append hrefused _ h.concluded

end Faithful

end AssistantStream
