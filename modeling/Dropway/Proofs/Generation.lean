import Dropway.Openrouter.Stream

/-! What a caller makes of a streamed completion depends on the bytes of the response and
on how it ends, not on how they arrive or who waits for whom; and an assembled message
is made of the chunks, each tool call of the fragments with its index. -/

namespace Dropway.Openrouter
open Lib

variable {s later : Stream} {asm : Assembler} {body more : Bytes} {ending : ReadError}
  {result : Except StreamError Message}

/-! ### What a message is made of -/

/-- Of the values of a field in the fragments, the last that is not empty. -/
def latest (default : Text) (values : List Text) : Text := ((values.filter (· ≠ [])).getLast?).getD default

def fragmentsAt (fragments : List ToolCallDelta) (index : Nat) : List ToolCallDelta :=
  fragments.filter fun d => decide (d.index = (index : Int))

/-- The tool call at an index. -/
def callAt (fragments : List ToolCallDelta) (index : Nat) : ToolCall :=
  let own := fragmentsAt fragments index
  ⟨latest [] (own.map (·.id)), latest "function".toList (own.map (·.type)),
    ⟨latest [] (own.map (·.function.name)), own.flatMap (·.function.arguments)⟩⟩

/-- One more than the highest index. -/
def callCount (fragments : List ToolCallDelta) : Nat :=
  fragments.foldr (fun d count => max count (d.index + 1).toNat) 0

def assembled (fragments : List ToolCallDelta) : List ToolCall :=
  (List.range (callCount fragments)).map (callAt fragments)

def StreamChunk.fragments (chunk : StreamChunk) : List ToolCallDelta :=
  chunk.choices.items.head?.elim [] (·.delta.toolCalls.items)

def StreamChunk.text (chunk : StreamChunk) : Text := chunk.choices.items.head?.elim [] (·.delta.content)

/-- The message of some chunks. -/
def generation (chunks : List StreamChunk) : Message :=
  ⟨"assistant".toList, chunks.flatMap (·.text), assembled (chunks.flatMap (·.fragments))⟩

private theorem latest_concat (default : Text) (values : List Text) (value : Text) :
    latest default (values ++ [value]) = kept value (latest default values) := by
  unfold latest kept
  rw [List.filter_append, List.filter_singleton]
  by_cases blank : value = []
  · simp [blank]
  · simp [blank]

private theorem callAt_own (fragments : List ToolCallDelta) {d : ToolCallDelta} {index : Nat} (own : d.index = index) :
    callAt (fragments ++ [d]) index = (callAt fragments index).extend d := by
  have filtered : fragmentsAt (fragments ++ [d]) index = fragmentsAt fragments index ++ [d] := by
    rw [fragmentsAt, List.filter_append, List.filter_singleton, decide_eq_true own]
    rfl
  simp only [callAt, filtered, List.map_append, List.map_singleton, latest_concat, List.flatMap_append,
    List.flatMap_singleton, ToolCall.extend]

private theorem callAt_other (fragments : List ToolCallDelta) {d : ToolCallDelta} {index : Nat} (other : d.index ≠ index) :
    callAt (fragments ++ [d]) index = callAt fragments index := by
  have filtered : fragmentsAt (fragments ++ [d]) index = fragmentsAt fragments index := by
    rw [fragmentsAt, List.filter_append, List.filter_singleton, decide_eq_false other]
    exact List.append_nil _
  simp only [callAt, filtered]

private theorem callCount_concat (fragments : List ToolCallDelta) (d : ToolCallDelta) :
    callCount (fragments ++ [d]) = max (callCount fragments) (d.index + 1).toNat := by
  induction fragments with
  | nil => rfl
  | cons first rest ih =>
    have longer : callCount (first :: rest ++ [d]) = max (callCount (rest ++ [d])) (first.index + 1).toNat := rfl
    have shorter : callCount (first :: rest) = max (callCount rest) (first.index + 1).toNat := rfl
    rw [longer, shorter, ih]
    omega

private theorem index_below {fragments : List ToolCallDelta} {d : ToolCallDelta} (mem : d ∈ fragments) :
    d.index < callCount fragments := by
  induction fragments with
  | nil => cases mem
  | cons first rest ih =>
    have shape : callCount (first :: rest) = max (callCount rest) (first.index + 1).toNat := rfl
    rw [shape]
    rcases List.mem_cons.mp mem with rfl | later
    · omega
    · have below := ih later
      omega

/-- An index that no fragment has. -/
private theorem callAt_beyond {fragments : List ToolCallDelta} {index : Nat} (beyond : callCount fragments ≤ index) :
    callAt fragments index = .fresh := by
  have none : fragmentsAt fragments index = [] := by
    rw [fragmentsAt, List.filter_eq_nil_iff]
    intro d mem same
    have below := index_below mem
    rw [of_decide_eq_true same] at below
    omega
  simp only [callAt, none]
  rfl

private theorem assembled_get (fragments : List ToolCallDelta) (index : Nat) :
    (assembled fragments)[index]? = if index < callCount fragments then some (callAt fragments index) else none := by
  unfold assembled
  rw [List.getElem?_map]
  split
  · rename_i below
    rw [List.getElem?_range below]
    rfl
  · rename_i beyond
    rw [List.getElem?_eq_none (by rw [List.length_range]; exact Nat.le_of_not_lt beyond)]
    rfl

/-- A fragment joins the call with its index, and no other. -/
theorem applyToolDelta_assembled (fragments : List ToolCallDelta) (d : ToolCallDelta) :
    applyToolDelta (assembled fragments) d = assembled (fragments ++ [d]) := by
  have size : (assembled fragments).length = callCount fragments := by
    rw [assembled, List.length_map, List.length_range]
  apply List.ext_getElem?
  intro index
  rw [assembled_get, callCount_concat]
  unfold applyToolDelta
  split
  · rename_i negative
    have other : d.index ≠ index := by omega
    have none : (d.index + 1).toNat = 0 := by omega
    rw [assembled_get, callAt_other fragments other, none, Nat.max_zero]
  · rename_i positive
    obtain ⟨own, same⟩ := Int.eq_ofNat_of_zero_le (Int.not_lt.mp positive)
    have number : d.index.toNat = own := by omega
    have count : (d.index + 1).toNat = own + 1 := by omega
    simp only [number, count, size]
    have padded : (assembled fragments ++ List.replicate (own + 1 - callCount fragments) ToolCall.fresh)[index]? =
        if index < max (callCount fragments) (own + 1) then some (callAt fragments index) else none := by
      rw [List.getElem?_append, size, assembled_get, List.getElem?_replicate]
      by_cases known : index < callCount fragments
      · rw [if_pos known, if_pos known, if_pos (by omega)]
      · rw [if_neg known, callAt_beyond (Nat.le_of_not_lt known)]
        by_cases within : index < own + 1
        · rw [if_pos (by omega), if_pos (by omega)]
        · rw [if_neg (by omega), if_neg (by omega)]
    by_cases here : own = index
    · subst here
      rw [List.getElem?_modify_eq, padded, if_pos (by omega), if_pos (by omega), callAt_own fragments same]
      rfl
    · rw [List.getElem?_modify_ne _ _ here, padded, callAt_other fragments (by omega)]

theorem foldl_assembled (fragments more : List ToolCallDelta) :
    more.foldl applyToolDelta (assembled fragments) = assembled (fragments ++ more) := by
  induction more generalizing fragments with
  | nil => rw [List.append_nil, List.foldl_nil]
  | cons d rest ih =>
    rw [List.foldl_cons, applyToolDelta_assembled, ih, List.append_assoc]
    rfl

private theorem apply_parts (asm : Assembler) (chunk : StreamChunk) :
    (asm.apply chunk).1.content = asm.content ++ chunk.text ∧
      (asm.apply chunk).1.calls = chunk.fragments.foldl applyToolDelta asm.calls := by
  unfold Assembler.apply StreamChunk.text StreamChunk.fragments
  cases chunk.choices.items with
  | nil => exact ⟨(List.append_nil _).symm, rfl⟩
  | cons choice _ =>
    simp only [List.head?_cons, Option.elim_some]
    split
    · rename_i blank
      rw [blank]
      exact ⟨(List.append_nil _).symm, rfl⟩
    · exact ⟨rfl, rfl⟩

/-- What the assembler holds of the text and the calls of some chunks. -/
structure Assembler.Holds (asm : Assembler) (chunks : List StreamChunk) : Prop where
  content : asm.content = chunks.flatMap (·.text)
  calls : asm.calls = assembled (chunks.flatMap (·.fragments))

theorem Assembler.Holds.finish {chunks : List StreamChunk} (holds : asm.Holds chunks) : asm.finish = generation chunks := by
  unfold Assembler.finish generation
  rw [holds.content, holds.calls]

theorem Assembler.Holds.apply {chunks : List StreamChunk} (holds : asm.Holds chunks) (chunk : StreamChunk) :
    (asm.apply chunk).1.Holds (chunks ++ [chunk]) := by
  obtain ⟨text, fragments⟩ := apply_parts asm chunk
  constructor
  · rw [text, holds.content, List.flatMap_append, List.flatMap_singleton]
  · rw [fragments, holds.calls, foldl_assembled, List.flatMap_append, List.flatMap_singleton]

theorem empty_holds : Assembler.empty.Holds [] where
  content := rfl
  calls := rfl

/-! ### Reading in one go -/

/-- Reading the lines one after the other. -/
def outcomeOf (asm : Assembler) (ending : ReadError) : List Bytes → Except StreamError Message
  | [] => if ending = .eof then .ok asm.finish else .error (.read ending)
  | line :: rest =>
    match readLine line with
    | .other => outcomeOf asm ending rest
    | .done => .ok asm.finish
    | .malformed => .error .malformedChunk
    | .chunk chunk => outcomeOf (asm.apply chunk).1 ending rest

def outcome (bytes : Bytes) (ending : ReadError) : Except StreamError Message :=
  outcomeOf .empty ending (bytes.splitOn newline)

theorem readLine_newline (line : Bytes) : readLine (line ++ [newline]) = readLine line := by
  have trimmed : trimBreak (line ++ [newline]) = trimBreak line := by
    unfold trimBreak
    rw [List.reverse_append, List.reverse_singleton, List.singleton_append,
      List.dropWhile_cons_of_pos (by decide)]
  unfold readLine
  rw [trimmed]

/-- A line that is left over is read like one that ends. -/
theorem outcomeOf_blank (asm : Assembler) (ending : ReadError) :
    outcomeOf asm ending [[]] = outcomeOf asm ending [] := rfl

private theorem splitOn_line {line : Bytes} (plain : newline ∉ line) (rest : Bytes) :
    (line ++ newline :: rest).splitOn newline = line :: rest.splitOn newline :=
  List.splitOn_append_cons_self_of_not_mem plain rest

private theorem readLine_nil : readLine [] = .other := rfl

/-! ### The goroutine -/

/-- What may arrive yet, and how the response may end. -/
def Stream.Ahead (s : Stream) (more : Bytes) (ending : ReadError) : Prop :=
  s.closed = none ∨ more = [] ∧ s.closed = some ending

/-- Read in one go, the response comes to this. -/
def Stream.ComesTo (s : Stream) (result : Except StreamError Message) : Prop :=
  ∀ more ending, s.Ahead more ending → outcome (s.arrived ++ more) ending = result

/-- The goroutine goes on from here as a reading in one go would. -/
def Stream.Awaits (s : Stream) (asm : Assembler) : Prop :=
  ∀ more ending, s.Ahead more ending →
    outcome (s.arrived ++ more) ending = outcomeOf asm ending ((s.buffer ++ more).splitOn newline)

/-- The goroutine at some point, with the text `said` delivered so far. -/
inductive Stream.At (s : Stream) : Text → Reader → Prop
  | reading {asm : Assembler} (awaits : s.Awaits asm) : s.At asm.content (.reading asm)
  | ended {asm : Assembler} {err : ReadError} (closed : s.closed = some err)
      (comes : outcome s.arrived err = outcomeOf asm err []) : s.At asm.content (.ended asm err)
  | delta {said delta : Text} {next : Reader} (later : s.At (said ++ delta) next) :
      s.At said (.sending (.delta delta) next)
  | done {asm : Assembler} (comes : s.ComesTo (.ok asm.finish)) : s.At asm.content (sendDone asm)
  | error {said : Text} {err : StreamError}
      (comes : s.ComesTo (.error err) ∨ s.cancelled = true ∧ err = .canceled) :
      s.At said (.sending (.error err) .exited)

theorem Stream.At.fails {said : Text} {err : StreamError} (comes : s.ComesTo (.error err)) :
    s.At said (sendError s.cancelled err) := by
  unfold sendError
  cases cancelled : s.cancelled with
  | false => exact .error (.inl comes)
  | true => exact .error (.inr ⟨cancelled, rfl⟩)

/-- The assembler adds the text that it hands out. -/
theorem apply_content {asm after : Assembler} {chunk : StreamChunk} {delta : Option Text}
    (applied : asm.apply chunk = (after, delta)) : after.content = asm.content ++ delta.getD [] := by
  unfold Assembler.apply at applied
  simp only at applied
  split at applied
  · cases applied
    exact (List.append_nil _).symm
  split at applied
  · cases applied
    exact (List.append_nil _).symm
  · cases applied
    rfl

/-- A line takes the goroutine on as it takes a reading in one go. -/
theorem Stream.At.process {line : Bytes} {next : Assembler → Reader} (rest : Bytes → ReadError → List Bytes)
    (ahead : ∀ more ending, s.Ahead more ending →
      outcome (s.arrived ++ more) ending = outcomeOf asm ending (line :: rest more ending))
    (goes : ∀ after : Assembler, (∀ more ending, s.Ahead more ending →
      outcome (s.arrived ++ more) ending = outcomeOf after ending (rest more ending)) → s.At after.content (next after)) :
    s.At asm.content (process s.cancelled asm line next) := by
  unfold Openrouter.process
  cases read : readLine line with
  | other =>
    refine goes asm fun more ending still => ?_
    rw [ahead more ending still, outcomeOf, read]
  | done =>
    refine .done fun more ending still => ?_
    rw [ahead more ending still, outcomeOf, read]
  | malformed =>
    refine .fails fun more ending still => ?_
    rw [ahead more ending still, outcomeOf, read]
  | chunk chunk =>
    have onward : ∀ more ending, s.Ahead more ending →
        outcome (s.arrived ++ more) ending = outcomeOf (asm.apply chunk).1 ending (rest more ending) := by
      intro more ending still
      rw [ahead more ending still, outcomeOf, read]
    cases applied : asm.apply chunk with
    | mk after delta =>
      have content := apply_content applied
      rw [applied] at onward
      have placed := goes after onward
      cases delta with
      | none =>
        rw [content, Option.getD_none, List.append_nil] at placed
        simp only [applied]
        exact placed
      | some delta =>
        rw [content] at placed
        simp only [applied]
        exact .delta placed

/-- What is ahead later was ahead before. -/
structure Stream.Later (s later : Stream) : Prop where
  ahead : ∀ more ending, later.Ahead more ending → ∃ all, s.Ahead all ending ∧
    s.arrived ++ all = later.arrived ++ more ∧ s.buffer ++ all = later.buffer ++ more
  closed : ∀ err, s.closed = some err → later.closed = some err
  cancelled : s.cancelled = true → later.cancelled = true

theorem Stream.ComesTo.grown (on : s.Later later) (comes : s.ComesTo result) : later.ComesTo result := by
  intro more ending still
  obtain ⟨all, before, arrived, -⟩ := on.ahead more ending still
  rw [← arrived]
  exact comes all ending before

private theorem failure_later {err : StreamError} (on : s.Later later)
    (comes : s.ComesTo (.error err) ∨ s.cancelled = true ∧ err = .canceled) :
    later.ComesTo (.error err) ∨ later.cancelled = true ∧ err = .canceled :=
  comes.imp (Stream.ComesTo.grown on) fun ⟨cancelled, same⟩ => ⟨on.cancelled cancelled, same⟩

theorem Stream.At.grown {said : Text} {reader : Reader} (on : s.Later later) (placed : s.At said reader) :
    later.At said reader := by
  induction placed with
  | reading awaits =>
    refine .reading fun more ending still => ?_
    obtain ⟨all, before, arrived, buffer⟩ := on.ahead more ending still
    rw [← arrived, ← buffer]
    exact awaits all ending before
  | ended closed comes =>
    refine .ended (on.closed _ closed) ?_
    obtain ⟨all, before, arrived, -⟩ := on.ahead [] _ (.inr ⟨rfl, on.closed _ closed⟩)
    rcases before with opened | ⟨rfl, -⟩
    · rw [closed] at opened
      cases opened
    · rw [List.append_nil, List.append_nil] at arrived
      rw [← arrived]
      exact comes
  | delta _ ih => exact .delta ih
  | done comes => exact .done (comes.grown on)
  | error comes => exact .error (failure_later on comes)

/-- The caller after the last event. -/
inductive Stream.Told (s : Stream) (said : Text) : Event → Prop
  | done {message : Message} {usage : Option Usage} (content : message.content = said) (comes : s.ComesTo (.ok message))
      (caller : s.caller = .ranging (some message) ∨ s.caller = .returned (.ok message)) : s.Told said (.done message usage)
  | error {err : StreamError} (comes : s.ComesTo (.error err) ∨ s.cancelled = true ∧ err = .canceled)
      (caller : s.caller = .returned (.error err)) : s.Told said (.error err)

inductive Stream.Sound (s : Stream) : Prop
  | running {deltas : List Text} (carried : s.carried = deltas.map .delta) (placed : s.At deltas.flatten s.reader)
      (caller : s.caller = .ranging none)
  | told {deltas : List Text} {last : Event} (carried : s.carried = deltas.map .delta ++ [last])
      (exited : s.reader = .exited) (told : s.Told deltas.flatten last)
  | left {deltas : List Text} (carried : s.carried = deltas.map .delta) (exited : s.reader = .exited)
      (cancelled : s.cancelled = true)
      (caller : s.caller = .ranging none ∨ s.caller = .returned (.error .endedWithoutResult))

theorem start_sound (body : Bytes) : (Stream.start body).Sound := by
  have placed : (Stream.start body).At Assembler.empty.content (.reading .empty) := .reading fun _ _ _ => rfl
  exact .running (show [] = ([] : List Text).map Event.delta from rfl) placed rfl

/-- Nothing but the response moves. -/
theorem Stream.Sound.grown (on : s.Later later) (reader : later.reader = s.reader) (carried : later.carried = s.carried)
    (caller : later.caller = s.caller) (sound : s.Sound) : later.Sound := by
  cases sound with
  | running told placed ranging =>
    refine .running (carried.trans told) ?_ (caller.trans ranging)
    rw [reader]
    exact placed.grown on
  | told told exited last =>
    refine .told (carried.trans told) (reader.trans exited) ?_
    cases last with
    | done content comes heard =>
      rw [← caller] at heard
      exact .done content (comes.grown on) heard
    | error comes heard => exact .error (failure_later on comes) (caller.trans heard)
  | left told exited cancelled heard =>
    rw [← caller] at heard
    exact .left (carried.trans told) (reader.trans exited) (on.cancelled cancelled) heard

private theorem arrive_later {size : Nat} (opened : s.closed = none) :
    s.Later { s with
      unsent := s.unsent.drop size, arrived := s.arrived ++ s.unsent.take size,
      buffer := s.buffer ++ s.unsent.take size } where
  ahead := fun more _ _ => ⟨s.unsent.take size ++ more, .inl opened, (List.append_assoc ..).symm, (List.append_assoc ..).symm⟩
  closed := fun _ closed => closed
  cancelled := id

private theorem close_later {err : ReadError} (opened : s.closed = none) :
    s.Later { s with closed := some err } where
  ahead := fun more _ _ => ⟨more, .inl opened, rfl, rfl⟩
  closed := by
    intro other closed
    rw [opened] at closed
    cases closed
  cancelled := id

private theorem cancel_later : s.Later { s with cancelled := true } where
  ahead := fun more _ still => ⟨more, still, rfl, rfl⟩
  closed := fun _ closed => closed
  cancelled := fun _ => rfl

private theorem reader_later {reader : Reader} {carried : List Event} {caller : Caller} :
    s.Later { s with reader, carried, caller } where
  ahead := fun more _ still => ⟨more, still, rfl, rfl⟩
  closed := fun _ closed => closed
  cancelled := id

private theorem line_plain (buffer : Bytes) : newline ∉ buffer.takeWhile (· ≠ newline) := by
  intro mem
  have kept := List.mem_takeWhile_imp mem
  exact of_decide_eq_true kept rfl

private theorem line_cut {buffer rest : Bytes} {byte : UInt8} (cut : buffer.dropWhile (· ≠ newline) = byte :: rest) :
    buffer = buffer.takeWhile (· ≠ newline) ++ newline :: rest := by
  have filled : buffer.dropWhile (fun b => decide (b ≠ newline)) ≠ [] := by
    rw [cut]
    exact List.cons_ne_nil _ _
  have first := List.head_dropWhile_not _ filled
  simp only [cut, List.head_cons, decide_eq_false_iff_not, not_not] at first
  have joined := List.takeWhile_append_dropWhile (p := fun b => decide (b ≠ newline)) (l := buffer)
  rw [cut, first] at joined
  exact joined.symm

private theorem line_whole {buffer : Bytes} (cut : buffer.dropWhile (· ≠ newline) = []) :
    buffer.takeWhile (· ≠ newline) = buffer := by
  have joined := List.takeWhile_append_dropWhile (p := fun b => decide (b ≠ newline)) (l := buffer)
  rw [cut, List.append_nil] at joined
  exact joined

/-- A line that ends is taken off the buffer. -/
private theorem read_line {rest : Bytes} {byte : UInt8} {reader : Reader} (awaits : s.Awaits asm)
    (cut : s.buffer.dropWhile (· ≠ newline) = byte :: rest) :
    ({ s with buffer := rest, reader } : Stream).At asm.content
      (process s.cancelled asm (s.buffer.takeWhile (· ≠ newline) ++ [newline]) .reading) := by
  refine .process (s := { s with buffer := rest, reader }) (fun more _ => (rest ++ more).splitOn newline) ?_ ?_
  · intro more ending still
    have now := awaits more ending still
    rw [line_cut cut, List.append_assoc, List.cons_append, splitOn_line (line_plain s.buffer)] at now
    rw [outcomeOf, readLine_newline]
    exact now
  · exact fun after onward => .reading onward

/-- What is left of the buffer once the response has ended is a line too. -/
private theorem read_last {err : ReadError} {reader : Reader} (awaits : s.Awaits asm) (closed : s.closed = some err)
    (cut : s.buffer.dropWhile (· ≠ newline) = []) :
    ({ s with buffer := [], reader } : Stream).At asm.content
      (process s.cancelled asm (s.buffer.takeWhile (· ≠ newline)) fun asm => .ended asm err) := by
  have whole := line_whole cut
  have plain := line_plain s.buffer
  rw [whole] at plain
  refine .process (s := { s with buffer := [], reader }) (fun _ _ => []) ?_ ?_
  · intro more ending still
    rcases still with opened | ⟨rfl, ends⟩
    · rw [closed] at opened
      cases opened
    · have now := awaits [] ending (.inr ⟨rfl, ends⟩)
      rw [List.append_nil s.buffer, List.splitOn_eq_singleton plain] at now
      rw [whole]
      exact now
  · intro after onward
    refine .ended closed ?_
    have now := onward [] err (.inr ⟨rfl, closed⟩)
    rw [List.append_nil] at now
    exact now

private theorem finished_at {err : ReadError} (closed : s.closed = some err)
    (comes : outcome s.arrived err = outcomeOf asm err []) : s.At asm.content (finished s.cancelled asm err) := by
  have settled : s.ComesTo (outcomeOf asm err []) := by
    rintro more ending (opened | ⟨rfl, ends⟩)
    · rw [closed] at opened
      cases opened
    · rw [closed] at ends
      cases ends
      rw [List.append_nil]
      exact comes
  unfold finished
  split
  · rename_i clean
    rw [outcomeOf, if_pos clean.1] at settled
    exact .done settled
  · rename_i unclean
    cases err with
    | failed => exact .fails settled
    | eof =>
      have cancelled : s.cancelled = true := by
        cases value : s.cancelled with
        | true => rfl
        | false => exact absurd ⟨rfl, value⟩ unclean
      rw [sendError, if_pos cancelled]
      exact .error (.inr ⟨cancelled, rfl⟩)

/-- An event goes over to the caller. -/
private theorem deliver_sound {ev : Event} {next : Reader} {deltas : List Text} (carried : s.carried = deltas.map .delta)
    (placed : s.At deltas.flatten (.sending ev next)) :
    ({ s with
        reader := next, carried := s.carried ++ [ev], caller := (Caller.ranging none).receive ev } : Stream).Sound := by
  have went : s.carried ++ [ev] = deltas.map .delta ++ [ev] := congrArg (· ++ [ev]) carried
  generalize said : deltas.flatten = text at placed
  cases placed with
  | @delta _ delta _ onward =>
    have longer : s.carried ++ [.delta delta] = (deltas ++ [delta]).map .delta := by
      rw [went, List.map_append, List.map_singleton]
    refine .running longer ?_ rfl
    rw [List.flatten_append, List.flatten_singleton, said]
    exact onward.grown reader_later
  | done comes => exact .told went rfl (.done said.symm (comes.grown reader_later) (.inl rfl))
  | error comes => exact .told went rfl (.error (failure_later reader_later comes) rfl)

theorem Stream.Sound.step (sound : s.Sound) {action : Action} (stepped : s.step action = some later) : later.Sound := by
  cases action with
  | arrive size =>
    simp only [Stream.step, Option.ite_none_right_eq_some, Option.some_inj] at stepped
    obtain ⟨opened, rfl⟩ := stepped
    exact sound.grown (arrive_later opened) rfl rfl rfl
  | close err =>
    simp only [Stream.step, Option.ite_none_right_eq_some, Option.some_inj] at stepped
    obtain ⟨⟨opened, -⟩, rfl⟩ := stepped
    exact sound.grown (close_later opened) rfl rfl rfl
  | cancel =>
    cases stepped
    exact sound.grown cancel_later rfl rfl rfl
  | read =>
    simp only [Stream.step] at stepped
    split at stepped
    · rename_i asm reading
      cases sound with
      | told _ exited | left _ exited =>
        rw [reading] at exited
        cases exited
      | running carried placed caller =>
        rw [reading] at placed
        generalize said : List.flatten _ = text at placed
        cases placed with
        | reading awaits =>
          split at stepped
          · rename_i cut
            cases stepped
            refine .running carried ?_ caller
            rw [said]
            exact read_line awaits cut
          · rename_i cut
            obtain ⟨err, closed, rfl⟩ := Option.map_eq_some_iff.mp stepped
            refine .running carried ?_ caller
            rw [said]
            exact read_last awaits closed cut
    · cases stepped
  | check =>
    simp only [Stream.step] at stepped
    split at stepped
    · rename_i asm err ended
      cases stepped
      cases sound with
      | told _ exited | left _ exited =>
        rw [ended] at exited
        cases exited
      | running carried placed caller =>
        rw [ended] at placed
        generalize said : List.flatten _ = text at placed
        cases placed with
        | ended closed comes =>
          refine .running carried ?_ caller
          rw [said]
          exact (finished_at closed comes).grown reader_later
    · cases stepped
  | deliver =>
    simp only [Stream.step] at stepped
    split at stepped
    · rename_i ev next done sending ranging
      cases stepped
      cases sound with
      | told _ exited | left _ exited =>
        rw [sending] at exited
        cases exited
      | running carried placed caller =>
        rw [ranging] at caller
        cases caller
        rw [sending] at placed
        exact deliver_sound carried placed
    · cases stepped
  | abandon =>
    simp only [Stream.step] at stepped
    split at stepped
    · rename_i ev next sending
      split at stepped
      · rename_i cancelled
        cases stepped
        cases sound with
        | told _ exited | left _ exited =>
          rw [sending] at exited
          cases exited
        | running carried placed caller => exact .left carried rfl cancelled (.inl caller)
      · cases stepped
    · cases stepped
  | finish =>
    simp only [Stream.step] at stepped
    split at stepped
    · rename_i done exited ranging
      cases stepped
      cases sound with
      | running carried placed caller =>
        rw [exited] at placed
        generalize List.flatten _ = said at placed
        cases placed
      | told carried _ last =>
        refine .told carried exited ?_
        cases last with
        | done content comes heard =>
          rw [ranging] at heard
          rcases heard with heard | heard
          · cases heard
            exact .done content (comes.grown reader_later) (.inr rfl)
          · cases heard
        | error comes heard =>
          rw [ranging] at heard
          cases heard
      | left carried _ cancelled heard =>
        rw [ranging] at heard
        rcases heard with heard | heard
        · cases heard
          exact .left carried exited cancelled (.inr rfl)
        · cases heard
    · cases stepped

theorem run_sound (run : Relation.ReflTransGen Stream.Next (.start body) s) : s.Sound := by
  induction run with
  | refl => exact start_sound body
  | tail _ step ih =>
    obtain ⟨action, stepped⟩ := step
    exact ih.step stepped

/-! ### What the caller gets -/

/-- All of the response arrives, unless it fails. -/
private theorem run_arrived (run : Relation.ReflTransGen Stream.Next (.start body) s) :
    s.arrived ++ s.unsent = body ∧ (s.closed = some .eof → s.unsent = []) := by
  induction run with
  | refl => exact ⟨rfl, fun closed => by cases closed⟩
  | @tail s later _ step ih =>
    obtain ⟨action, stepped⟩ := step
    obtain ⟨whole, ends⟩ := ih
    cases action with
    | arrive size =>
      simp only [Stream.step, Option.ite_none_right_eq_some, Option.some_inj] at stepped
      obtain ⟨opened, rfl⟩ := stepped
      refine ⟨?_, fun closed => ?_⟩
      · rw [List.append_assoc, List.take_append_drop, whole]
      · rw [opened] at closed
        cases closed
    | close err =>
      simp only [Stream.step, Option.ite_none_right_eq_some, Option.some_inj] at stepped
      obtain ⟨⟨-, sent⟩, rfl⟩ := stepped
      exact ⟨whole, fun closed => sent (Option.some_inj.mp closed)⟩
    | cancel =>
      cases stepped
      exact ⟨whole, ends⟩
    | read =>
      simp only [Stream.step] at stepped
      split at stepped
      · split at stepped
        · cases stepped
          exact ⟨whole, ends⟩
        · obtain ⟨err, -, rfl⟩ := Option.map_eq_some_iff.mp stepped
          exact ⟨whole, ends⟩
      · cases stepped
    | check | deliver | finish =>
      simp only [Stream.step] at stepped
      split at stepped
      · cases stepped
        exact ⟨whole, ends⟩
      · cases stepped
    | abandon =>
      simp only [Stream.step] at stepped
      split at stepped
      · split at stepped
        · cases stepped
          exact ⟨whole, ends⟩
        · cases stepped
      · cases stepped

/-- What there is of the response, if `arrived` is what there is when it fails. -/
def Stream.response (s : Stream) (body : Bytes) : Bytes := if s.closed = some .failed then s.arrived else body

private theorem comes_response (run : Relation.ReflTransGen Stream.Next (.start body) s) (comes : s.ComesTo result) :
    outcome (s.response body) (s.closed.getD .eof) = result := by
  obtain ⟨whole, ends⟩ := run_arrived run
  unfold Stream.response
  cases closed : s.closed with
  | none =>
    rw [if_neg nofun, Option.getD_none, ← whole]
    exact comes s.unsent .eof (.inl closed)
  | some err =>
    have now := comes [] err (.inr ⟨rfl, closed⟩)
    rw [List.append_nil] at now
    cases err with
    | failed =>
      rw [if_pos rfl]
      exact now
    | eof =>
      rw [ends closed, List.append_nil] at whole
      rw [if_neg nofun, ← whole]
      exact now

/-- A caller that returned has what reading the response in one go comes to, however
the response was cut up and whoever waited; unless the context was cancelled. -/
theorem complete_exact (run : Relation.ReflTransGen Stream.Next (.start body) s)
    (returned : s.caller = .returned result) :
    outcome (s.response body) (s.closed.getD .eof) = result ∨
      s.cancelled = true ∧ (result = .error .canceled ∨ result = .error .endedWithoutResult) := by
  cases run_sound run with
  | running _ _ ranging =>
    rw [returned] at ranging
    cases ranging
  | told _ _ last =>
    cases last with
    | done _ comes heard =>
      rw [returned] at heard
      rcases heard with heard | heard
      · cases heard
      · cases heard
        exact .inl (comes_response run comes)
    | error comes heard =>
      rw [returned] at heard
      cases heard
      rcases comes with comes | ⟨cancelled, same⟩
      · exact .inl (comes_response run comes)
      · exact .inr ⟨cancelled, .inl (congrArg Except.error same)⟩
  | left _ _ cancelled heard =>
    rw [returned] at heard
    rcases heard with heard | heard
    · cases heard
    · cases heard
      exact .inr ⟨cancelled, .inr rfl⟩

/-- The events: deltas that make up the message, and one other, which is the last. -/
theorem events_in_order (run : Relation.ReflTransGen Stream.Next (.start body) s) :
    ∃ deltas : List Text,
      (s.carried = deltas.map .delta ∧ (s.reader = .exited → s.cancelled = true)) ∨
      (∃ message usage, s.carried = deltas.map .delta ++ [.done message usage] ∧ message.content = deltas.flatten) ∨
      ∃ err, s.carried = deltas.map .delta ++ [.error err] := by
  cases run_sound run with
  | @running deltas carried placed =>
    refine ⟨deltas, .inl ⟨carried, fun exited => ?_⟩⟩
    rw [exited] at placed
    generalize deltas.flatten = said at placed
    cases placed
  | left carried _ cancelled => exact ⟨_, .inl ⟨carried, fun _ => cancelled⟩⟩
  | told carried _ last =>
    cases last with
    | done content => exact ⟨_, .inr (.inl ⟨_, _, carried, content⟩)⟩
    | error => exact ⟨_, .inr (.inr ⟨_, carried⟩)⟩

/-- The chunks of a response that makes a message: all of them, or those before the mark. -/
inductive Completes (ending : ReadError) : List Bytes → List StreamChunk → Prop
  | ends (clean : ending = .eof) : Completes ending [] []
  | mark {line : Bytes} {rest : List Bytes} (read : readLine line = .done) : Completes ending (line :: rest) []
  | other {line : Bytes} {rest : List Bytes} {chunks : List StreamChunk} (read : readLine line = .other)
      (onward : Completes ending rest chunks) : Completes ending (line :: rest) chunks
  | chunk {line : Bytes} {rest : List Bytes} {chunk : StreamChunk} {chunks : List StreamChunk}
      (read : readLine line = .chunk chunk) (onward : Completes ending rest chunks) :
      Completes ending (line :: rest) (chunk :: chunks)

private theorem outcomeOf_message {lines : List Bytes} {before : List StreamChunk} {message : Message}
    (holds : asm.Holds before) (comes : outcomeOf asm ending lines = .ok message) :
    ∃ chunks, Completes ending lines chunks ∧ message = generation (before ++ chunks) := by
  induction lines generalizing asm before with
  | nil =>
    rw [outcomeOf] at comes
    split at comes
    · rename_i clean
      cases comes
      exact ⟨[], .ends clean, by rw [List.append_nil]; exact holds.finish⟩
    · cases comes
  | cons line rest ih =>
    rw [outcomeOf] at comes
    split at comes
    · rename_i read
      obtain ⟨chunks, onward, same⟩ := ih holds comes
      exact ⟨chunks, .other read onward, same⟩
    · rename_i read
      cases comes
      exact ⟨[], .mark read, by rw [List.append_nil]; exact holds.finish⟩
    · cases comes
    · rename_i chunk read
      obtain ⟨chunks, onward, same⟩ := ih (holds.apply chunk) comes
      rw [List.append_assoc] at same
      exact ⟨chunk :: chunks, .chunk read onward, same⟩

/-- A message that the caller gets is made of the chunks of the response, all of them or
all before the mark, each tool call of the fragments with its index. -/
theorem complete_message {message : Message} (run : Relation.ReflTransGen Stream.Next (.start body) s)
    (returned : s.caller = .returned (.ok message)) :
    ∃ chunks, Completes (s.closed.getD .eof) ((s.response body).splitOn newline) chunks ∧ message = generation chunks := by
  rcases complete_exact run returned with comes | ⟨-, canceled | ended⟩
  · exact outcomeOf_message empty_holds comes
  · cases canceled
  · cases ended

/-! ### It always returns -/

/-- A step of the goroutine or of its caller. -/
def Action.own : Action → Bool
  | .arrive _ | .close _ | .cancel => false
  | .read | .check | .deliver | .abandon | .finish => true

/-- How much the goroutine has to do with so many lines in the buffer. -/
def Reader.work (lines : Nat) : Reader → Nat
  | .reading _ => 2 * lines + 4
  | .ended _ _ => 2
  | .sending _ next => next.work lines + 1
  | .exited => 0

def Caller.work : Caller → Nat
  | .ranging _ => 1
  | .returned _ => 0

def Stream.work (s : Stream) : Nat := s.reader.work (s.buffer.count newline) + s.caller.work

private theorem process_work {cancelled : Bool} {line : Bytes} {next : Assembler → Reader} {lines n : Nat}
    (bounded : ∀ after, (next after).work lines = n) : (process cancelled asm line next).work lines ≤ n + 1 := by
  unfold process
  split
  · rw [bounded]
    exact Nat.le_succ n
  · exact Nat.succ_le_succ (Nat.zero_le n)
  · exact Nat.succ_le_succ (Nat.zero_le n)
  · split
    · rw [bounded]
      exact Nat.le_succ n
    · exact Nat.succ_le_succ (Nat.le_of_eq (bounded _))

private theorem receive_work (ev : Event) (caller : Caller) : (caller.receive ev).work ≤ caller.work := by
  cases caller with
  | returned => exact Nat.le_refl _
  | ranging =>
    cases ev with
    | error => exact Nat.zero_le _
    | delta | done => exact Nat.le_refl _

private theorem line_counted {buffer rest : Bytes} {byte : UInt8} (cut : buffer.dropWhile (· ≠ newline) = byte :: rest) :
    buffer.count newline = rest.count newline + 1 := by
  have none : (buffer.takeWhile (· ≠ newline)).count newline = 0 := List.count_eq_zero.mpr (line_plain buffer)
  conv_lhs => rw [line_cut cut]
  rw [List.count_append, List.count_cons_self, none, Nat.zero_add]

/-- Once the response has ended, each step of the goroutine or its caller leaves less to do. -/
theorem Stream.step_work {action : Action} (stepped : s.step action = some later) (closed : s.closed ≠ none) :
    later.closed ≠ none ∧ (if action.own then 1 else 0) + later.work ≤ s.work := by
  cases action with
  | arrive size | close err =>
    simp only [Stream.step, Option.ite_none_right_eq_some] at stepped
    grind
  | cancel =>
    cases stepped
    exact ⟨closed, Nat.le_of_eq (Nat.zero_add _)⟩
  | read =>
    simp only [Stream.step] at stepped
    split at stepped
    · rename_i asm reading
      split at stepped
      · rename_i rest cut
        cases stepped
        have lines := line_counted cut
        have bounded : (process s.cancelled asm (s.buffer.takeWhile (· ≠ newline) ++ [newline]) .reading).work
            (rest.count newline) ≤ (2 * rest.count newline + 4) + 1 := process_work fun _ => rfl
        refine ⟨closed, ?_⟩
        simp only [Stream.work, reading, Reader.work, lines, Action.own, if_true]
        omega
      · obtain ⟨err, -, rfl⟩ := Option.map_eq_some_iff.mp stepped
        have bounded : (process s.cancelled asm (s.buffer.takeWhile (· ≠ newline)) fun asm => .ended asm err).work 0 ≤
            2 + 1 := process_work fun _ => rfl
        refine ⟨closed, ?_⟩
        simp only [Stream.work, reading, Reader.work, List.count_nil, Action.own, if_true]
        omega
    · cases stepped
  | check =>
    simp only [Stream.step] at stepped
    split at stepped
    · rename_i asm err ended
      cases stepped
      have one : (finished s.cancelled asm err).work (s.buffer.count newline) = 1 := by
        unfold finished
        split
        · rfl
        · rfl
      refine ⟨closed, ?_⟩
      simp only [Stream.work, ended, Reader.work, one, Action.own, if_true]
      omega
    · cases stepped
  | deliver =>
    simp only [Stream.step] at stepped
    split at stepped
    · rename_i ev next done sending ranging
      cases stepped
      have heard := receive_work ev (.ranging done)
      refine ⟨closed, ?_⟩
      simp only [Stream.work, sending, ranging, Reader.work, Action.own, if_true]
      omega
    · cases stepped
  | abandon =>
    simp only [Stream.step] at stepped
    split at stepped
    · rename_i ev next sending
      split at stepped
      · cases stepped
        refine ⟨closed, ?_⟩
        simp only [Stream.work, sending, Reader.work, Action.own, if_true]
        omega
      · cases stepped
    · cases stepped
  | finish =>
    simp only [Stream.step] at stepped
    split at stepped
    · rename_i done exited ranging
      cases stepped
      refine ⟨closed, ?_⟩
      simp only [Stream.work, exited, ranging, Reader.work, Caller.work, Action.own, if_true]
      omega
    · cases stepped

theorem Stream.perform_work {actions : List Action} (performed : s.perform actions = some later) (closed : s.closed ≠ none) :
    (actions.filter Action.own).length + later.work ≤ s.work := by
  induction actions generalizing s with
  | nil =>
    cases performed
    exact Nat.le_of_eq (Nat.zero_add _)
  | cons action rest ih =>
    obtain ⟨next, stepped, performed⟩ := Option.bind_eq_some_iff.mp performed
    obtain ⟨still, less⟩ := Stream.step_work stepped closed
    have others := ih performed still
    rw [List.filter_cons]
    split
    · rename_i own
      rw [if_pos own] at less
      rw [List.length_cons]
      omega
    · rename_i foreign
      rw [if_neg foreign] at less
      omega

/-- After the end of the response there are only so many steps of the goroutine and its
caller, and they do not stop before the goroutine is gone and the caller has returned. -/
theorem complete_returns (run : Relation.ReflTransGen Stream.Next (.start body) s) (closed : s.closed ≠ none) :
    (∀ actions later, s.perform actions = some later → (actions.filter Action.own).length + later.work ≤ s.work) ∧
      ((∀ action, action.own = true → s.step action = none) →
        s.reader = .exited ∧ ∃ result, s.caller = .returned result) := by
  refine ⟨fun actions later performed => Stream.perform_work performed closed, fun stuck => ?_⟩
  obtain ⟨err, ends⟩ := Option.ne_none_iff_exists'.mp closed
  have exited : s.reader = .exited := by
    cases run_sound run with
    | told _ exited | left _ exited => exact exited
    | running _ _ ranging =>
      cases reader : s.reader with
      | exited => rfl
      | reading asm =>
        have read := stuck .read rfl
        simp only [Stream.step, reader] at read
        split at read
        · cases read
        · rw [ends] at read
          cases read
      | ended asm err =>
        have check := stuck .check rfl
        simp only [Stream.step, reader] at check
        cases check
      | sending ev next =>
        have deliver := stuck .deliver rfl
        simp only [Stream.step, reader, ranging] at deliver
        cases deliver
  refine ⟨exited, ?_⟩
  cases caller : s.caller with
  | returned result => exact ⟨result, rfl⟩
  | ranging done =>
    have finish := stuck .finish rfl
    simp only [Stream.step, exited, caller] at finish
    cases finish

/-! ### A greeting -/

theorem perform_run {actions : List Action} (performed : s.perform actions = some later) :
    Relation.ReflTransGen Stream.Next s later := by
  induction actions generalizing s with
  | nil =>
    cases performed
    exact .refl
  | cons action rest ih =>
    obtain ⟨next, stepped, performed⟩ := Option.bind_eq_some_iff.mp performed
    exact .head ⟨action, stepped⟩ (ih performed)

/-- One chunk and the mark. -/
def greeting : Bytes :=
  Utf8.encode ("data: ".toList ++ ['\x7b'] ++ "\"choices\":[".toList ++ ['\x7b'] ++ "\"delta\":".toList ++ ['\x7b'] ++
    "\"content\":\"Hi\"".toList ++ ['\x7d', '\x7d', ']', '\x7d', '\n', '\n'] ++ "data: [DONE]\n".toList)

/-- It arrives in two pieces, and ends before all of it is read. -/
def greets : List Action :=
  [.arrive 20, .arrive 100, .read, .deliver, .close .eof, .read, .read, .deliver, .finish]

theorem greeted : ((Stream.start greeting).perform greets).isSome = true := by decide +kernel

def afterGreeting : Stream := ((Stream.start greeting).perform greets).get greeted

theorem greeting_run : Relation.ReflTransGen Stream.Next (.start greeting) afterGreeting :=
  perform_run (Option.some_get greeted).symm

private theorem greeting_returned : afterGreeting.caller = .returned (.ok ⟨"assistant".toList, ['H', 'i'], []⟩) := by decide +kernel

/-- The response in one go. -/
theorem greeting_exact : outcome (afterGreeting.response greeting) (afterGreeting.closed.getD .eof) =
    .ok ⟨"assistant".toList, ['H', 'i'], []⟩ := by
  rcases complete_exact greeting_run greeting_returned with comes | ⟨-, canceled | ended⟩
  · exact comes
  · cases canceled
  · cases ended

/-- Its one chunk. -/
theorem greeting_message : ∃ chunks, Completes (afterGreeting.closed.getD .eof)
    ((afterGreeting.response greeting).splitOn newline) chunks ∧
      ⟨"assistant".toList, ['H', 'i'], []⟩ = generation chunks :=
  complete_message greeting_run greeting_returned

/-- Its one delta. -/
theorem greeting_in_order : ∃ deltas : List Text,
    (afterGreeting.carried = deltas.map .delta ∧ (afterGreeting.reader = .exited → afterGreeting.cancelled = true)) ∨
    (∃ message usage, afterGreeting.carried = deltas.map .delta ++ [.done message usage] ∧
      message.content = deltas.flatten) ∨
    ∃ err, afterGreeting.carried = deltas.map .delta ++ [.error err] :=
  events_in_order greeting_run

/-- Nothing is left to do. -/
theorem greeting_returns : afterGreeting.reader = .exited ∧ ∃ result, afterGreeting.caller = .returned result := by
  have closed : afterGreeting.closed ≠ none := by decide +kernel
  have stuck : ([.read, .check, .deliver, .abandon, .finish].all fun action => (afterGreeting.step action).isNone) = true := by
    decide +kernel
  refine (complete_returns greeting_run closed).2 fun action own => ?_
  have listed : action ∈ [Action.read, .check, .deliver, .abandon, .finish] := by
    cases action with
    | arrive | close | cancel => cases own
    | read | check | deliver | abandon | finish => simp
  exact Option.isNone_iff_eq_none.mp (List.all_eq_true.mp stuck action listed)

end Dropway.Openrouter
