import Legalise.Assistant.Stream
import Legalise.JavaScript.Str
import Legalise.Lib.Framing

/-!
This module contains the streamed variant of a turn on the side of the browser, and when the events that the server
emits arrive there as they are, with one terminal event at the end.
-/

namespace AssistantStream

open JavaScript
open JsonText (dumpsLine Printable)

section Client

/--
`TextDecoder` with `stream: true`, which keeps the bytes of an unfinished character for the next call.
-/
structure TextDecoder where
  State : Type
  init : State
  decode : State → Bytes → State × JsString
  /-- No character is unfinished. -/
  Between : State → Prop
  between_init : Between init
  ascii : ∀ state, Between state → ∀ bytes : Bytes, (∀ b ∈ bytes, b.val < 0x80)
    → Between (decode state bytes).fst ∧ (decode state bytes).snd = bytes.map fun b => Fin.ofNat 0x10000 b.val

def newline : CodeUnit := 0x0A

/--
`line.startsWith(field)`, with what follows in the line, trimmed.
-/
def readField (field line : JsString) : Option JsString :=
  if field <+: line then some (trim (line.drop field.length)) else none

/--
The event and the lines of data of a frame.
-/
structure Frame where
  event : JsString
  dataLines : List JsString

def readLine (frame : Frame) (line : JsString) : Frame :=
  match readField (js "event:") line with
  | some event => { frame with event := event }
  | none =>
    match readField (js "data:") line with
    | some data => { frame with dataLines := frame.dataLines ++ [data] }
    | none => frame

def readFrame (frame : JsString) : Frame :=
  (frame.splitOn newline).foldl readLine ⟨js "message", []⟩

variable {V : Type} (parse : JsString → Option V) (D : TextDecoder)

/--
The generator: the state of its decoder and its buffer, what it has yielded, and whether it has thrown.
-/
structure Client (V : Type) (σ : Type) where
  decoder : σ
  buffer : JsString
  yielded : List (JsString × V)
  threw : Bool

def Client.init : Client V D.State :=
  ⟨D.init, [], [], false⟩

/--
What the generator does with a frame: it yields its event, skips it, or throws when `JSON.parse` does.
-/
def Client.yieldFrame {σ : Type} (c : Client V σ) (frame : JsString) : Client V σ :=
  if c.threw then c
  else
    let { event, dataLines } := readFrame frame
    if dataLines.isEmpty then c
    else
      match parse ([newline].intercalate dataLines) with
      | some data => { c with yielded := c.yielded ++ [(event, data)] }
      | none => { c with threw := true }

/--
One round of the outer loop, with the chunk that the reader has got.
-/
def Client.read (c : Client V D.State) (value : Bytes) : Client V D.State :=
  if c.threw then c
  else
    let (decoder, text) := D.decode c.decoder value
    let (frames, rest) := Framing.split [newline, newline] (c.buffer ++ text)
    frames.foldl (Client.yieldFrame parse) { c with decoder := decoder, buffer := rest }

/--
`postAssistantMessageStream` of a response in chunks.
-/
def postAssistantMessageStream (chunks : List Bytes) : Client V D.State :=
  chunks.foldl (Client.read parse D) (Client.init D)

end Client

section Ascii

/--
A text of ASCII in JavaScript.
-/
def units (s : PyStr) : JsString :=
  s.map fun c => Fin.ofNat 0x10000 c.val

theorem units_append (s t : PyStr) : units (s ++ t) = units s ++ units t :=
  List.map_append

theorem val_unit {c : CodePoint} (hc : c.val < 0x80) : (Fin.ofNat 0x10000 c.val : CodeUnit).val = c.val := by
  rw [Fin.val_ofNat]
  omega

/--
The bytes of a text of ASCII are its characters.
-/
theorem encode_ascii {s : PyStr} (hs : ∀ c ∈ s, c.val < 0x80)
    : Utf8.encode s = some (s.map fun c => Utf8.byte c.val) := by
  have hencodable : Utf8Encodable s := by
    intro c hc
    have := hs c hc
    omega
  unfold Utf8.encode
  rw [if_pos hencodable, List.flatMap_def]
  congr 1
  have hpoint : s.map Utf8.encodePoint = s.map fun c => [Utf8.byte c.val] := by
    apply List.map_congr_left
    intro c hc
    unfold Utf8.encodePoint
    exact if_pos (hs c hc)
  rw [hpoint, ← List.flatMap_def]
  exact List.flatMap_pure_eq_map _ s

/--
Bytes of ASCII as the decoder gives them.
-/
def textOf (bytes : Bytes) : JsString :=
  bytes.map fun b => Fin.ofNat 0x10000 b.val

theorem val_byte {c : CodePoint} (hc : c.val < 0x80) : (Utf8.byte c.val).val = c.val := by
  show c.val % 256 = c.val
  omega

theorem textOf_map_byte {s : PyStr} (hs : ∀ c ∈ s, c.val < 0x80)
    : textOf (s.map fun c => Utf8.byte c.val) = units s := by
  unfold textOf units
  rw [List.map_map]
  apply List.map_congr_left
  intro c hc
  rw [Function.comp_apply, val_byte (hs c hc)]

end Ascii

section Frames

variable {V : Type} {parse : JsString → Option V} {D : TextDecoder}

/--
A frame that the generator yields an event for.
-/
def Reads (parse : JsString → Option V) (frame : JsString) (event : JsString × V) : Prop :=
  (readFrame frame).event = event.fst ∧ (readFrame frame).dataLines ≠ []
    ∧ parse ([newline].intercalate (readFrame frame).dataLines) = some event.snd

theorem yieldFrame_of_reads {σ : Type} {c : Client V σ} {frame : JsString} {event : JsString × V}
    (h : Reads parse frame event) (hthrew : c.threw = false)
    : c.yieldFrame parse frame = { c with yielded := c.yielded ++ [event] } := by
  have ⟨hevent, hlines, hparse⟩ := h
  unfold Client.yieldFrame
  dsimp only
  rw [if_neg (by simp [hthrew]), if_neg (by simpa using hlines), hparse, hevent]

theorem foldl_yieldFrame {σ : Type} {frames : List JsString} {c : Client V σ} (hthrew : c.threw = false)
    (h : ∀ frame ∈ frames, ∃ event, Reads parse frame event)
    : ∃ events, List.Forall₂ (Reads parse) frames events
        ∧ frames.foldl (Client.yieldFrame parse) c = { c with yielded := c.yielded ++ events } := by
  induction frames generalizing c with
  | nil => exact ⟨[], .nil, by simp⟩
  | cons frame frames ih =>
    have ⟨event, hevent⟩ := h frame (by simp)
    have ⟨events, hreads, heq⟩ := @ih { c with yielded := c.yielded ++ [event] } hthrew
      fun f hf => h f (by simp [hf])
    refine ⟨event :: events, .cons hevent hreads, ?_⟩
    rw [List.foldl_cons, yieldFrame_of_reads hevent hthrew, heq]
    simp

def separator : JsString := [newline, newline]

theorem separator_ne_nil : separator ≠ [] := by
  simp [separator]

theorem Client.read_of_ascii {c : Client V D.State} {chunk : Bytes} (hthrew : c.threw = false)
    (hdecoder : D.Between c.decoder) (hchunk : ∀ b ∈ chunk, b.val < 0x80)
    : ∃ decoder, D.Between decoder
        ∧ c.read parse D chunk
          = (Framing.split separator (c.buffer ++ textOf chunk)).fst.foldl (Client.yieldFrame parse)
            { c with decoder := decoder, buffer := (Framing.split separator (c.buffer ++ textOf chunk)).snd } := by
  have ⟨hbetween, htext⟩ := D.ascii c.decoder hdecoder chunk hchunk
  refine ⟨_, hbetween, ?_⟩
  unfold Client.read
  rw [if_neg (by simp [hthrew])]
  dsimp only
  rw [htext]
  rfl

/--
If every frame of a stream can be read, then its events are yielded however it is cut into chunks.
-/
theorem postAssistantMessageStream_eq {chunks : List Bytes} (hascii : ∀ b ∈ chunks.flatten, b.val < 0x80)
    (h : ∀ frame ∈ (Framing.split separator (textOf chunks.flatten)).fst, ∃ event, Reads parse frame event)
    : ∃ events decoder, List.Forall₂ (Reads parse) (Framing.split separator (textOf chunks.flatten)).fst events
        ∧ D.Between decoder
        ∧ postAssistantMessageStream parse D chunks
          = ⟨decoder, (Framing.split separator (textOf chunks.flatten)).snd, events, false⟩ := by
  induction chunks using List.reverseRecOn with
  | nil =>
    have hnil : Framing.split separator (textOf ([] : List Bytes).flatten) = ([], []) :=
      Framing.split_of_cut_eq_none (by simp [textOf, separator, Cut.cut])
    rw [hnil]
    exact ⟨[], D.init, .nil, D.between_init, rfl⟩
  | append_singleton chunks chunk ih =>
    have htext : textOf (chunks ++ [chunk]).flatten = textOf chunks.flatten ++ textOf chunk := by
      simp [textOf]
    rw [htext, Framing.split_append separator_ne_nil] at h ⊢
    dsimp only at h ⊢
    obtain ⟨events, decoder, hreads, hbetween, heq⟩ := ih (fun b hb => hascii b (by simp at hb ⊢; exact .inl hb))
      fun frame hframe => h frame (List.mem_append_left _ hframe)
    have hchunk : ∀ b ∈ chunk, b.val < 0x80 := fun b hb => hascii b (by simp [hb])
    obtain ⟨next, hnext, hread⟩ := @Client.read_of_ascii V parse D
      ⟨decoder, (Framing.split separator (textOf chunks.flatten)).snd, events, false⟩ chunk rfl hbetween hchunk
    obtain ⟨more, hmore, hfold⟩ := @foldl_yieldFrame V parse D.State
      (Framing.split separator ((Framing.split separator (textOf chunks.flatten)).snd ++ textOf chunk)).fst
      ⟨next, (Framing.split separator ((Framing.split separator (textOf chunks.flatten)).snd ++ textOf chunk)).snd,
        events, false⟩ rfl fun frame hframe => h frame (List.mem_append_right _ hframe)
    refine ⟨events ++ more, next, List.rel_append hreads hmore, hnext, ?_⟩
    unfold postAssistantMessageStream at heq ⊢
    rw [List.foldl_append, heq, List.foldl_cons, List.foldl_nil, hread]
    exact hfold

end Frames

section Format

variable {V : Type} {parse : JsString → Option V} {R : PyRepr}

/--
A frame without the two newlines at its end.
-/
def frameText (R : PyRepr) (e : Event) : PyStr :=
  py "event: " ++ e.name.str ++ py "\ndata: " ++ dumpsLine R (.dict e.data)

theorem printable_name (name : EventName) : Printable name.str := by
  cases name with
  | milestone m => cases m <;> decide
  | result => decide
  | error => decide

theorem ascii_of_printable {s : PyStr} (h : Printable s) : ∀ c ∈ s, c.val < 0x80 := by
  intro c hc
  have := h c hc
  omega

theorem ascii_sseText (hR : ∀ x, Printable (JsonText.dumpsFloat R x)) (e : Event) : ∀ c ∈ sseText R e, c.val < 0x80 := by
  have hevent : ∀ c ∈ py "event: ", c.val < 0x80 := ascii_of_printable (by decide)
  have hdata : ∀ c ∈ py "\ndata: ", c.val < 0x80 := by
    have : ((py "\ndata: ").all fun c => c.val < 0x80) = true := by
      decide
    simpa using this
  have hend : ∀ c ∈ py "\n\n", c.val < 0x80 := by
    have : ((py "\n\n").all fun c => c.val < 0x80) = true := by
      decide
    simpa using this
  unfold sseText
  rw [List.forall_mem_append, List.forall_mem_append, List.forall_mem_append, List.forall_mem_append]
  exact ⟨⟨⟨⟨hevent, ascii_of_printable (printable_name e.name)⟩, hdata⟩,
    ascii_of_printable (JsonText.printable_dumpsLine hR _)⟩, hend⟩

/--
An event can always be formatted, as the bytes of its frame.
-/
theorem sseFormat_eq (hR : ∀ x, Printable (JsonText.dumpsFloat R x)) (e : Event)
    : sseFormat R e = some ((sseText R e).map fun c => Utf8.byte c.val) :=
  encode_ascii (ascii_sseText hR e)

theorem newline_notMem_units {s : PyStr} (h : Printable s) : newline ∉ units s := by
  intro hmem
  obtain ⟨c, hc, heq⟩ := List.mem_map.mp hmem
  have hbounds := h c hc
  have := congrArg Fin.val heq
  rw [val_unit (by omega)] at this
  have hnewline : newline.val = 0x0A := rfl
  omega

theorem isSpace_unit {c : CodePoint} (h : 0x20 < c.val ∧ c.val < 0x7f) : isSpace (Fin.ofNat 0x10000 c.val) = false := by
  unfold isSpace
  rw [val_unit (by omega)]
  simp
  omega

/--
A text is trimmed to itself when it does not start or end with a space.
-/
theorem trim_eq_self {s : JsString} (hhead : ∀ c, s.head? = some c → isSpace c = false)
    (hlast : ∀ c, s.getLast? = some c → isSpace c = false) : trim s = s := by
  have hdrop : s.dropWhile isSpace = s := by
    cases s with
    | nil => rfl
    | cons c s => rw [List.dropWhile_cons, hhead c rfl]; rfl
  unfold trim trimEnd
  rw [hdrop, List.rdropWhile_eq_self_iff]
  intro hne
  rw [hlast _ (List.getLast?_eq_some_getLast hne)]
  exact Bool.false_ne_true

theorem trim_space_cons (s : JsString) : trim (space :: s) = trim s := by
  unfold trim
  rw [List.dropWhile_cons_of_pos isSpace_space]

end Format

end AssistantStream
