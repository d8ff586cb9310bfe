import Dropway.Api.Chunks

/-! What the index cuts a text into. Pieces stay within the budget and are valid as
long as no hard cut falls inside a character and no separator overruns the budget. -/

namespace Dropway.Api
open Lib Utf8

namespace ChunkText

variable {size : Nat}

/-- What a reader of the pieces expects of them. -/
structure Right (size : Nat) (text : Bytes) (chunks : List Bytes) : Prop where
  chunk : ∀ chunk ∈ chunks, chunk ≠ [] ∧ Valid chunk ∧ chunk.length ≤ size
  whole : visible chunks.flatten = visible text

/-- Some hard cut of a paragraph falls inside a character. -/
inductive Torn (size : Nat) : Bytes → Prop
  | here {para : Bytes} (long : size < para.length) (inside : ¬ Valid (para.take (hardCut size para))) : Torn size para
  | later {para : Bytes} (long : size < para.length) (torn : Torn size (trimSpace (para.drop (hardCut size para)))) :
      Torn size para

/-- A paragraph is put behind others because it fits the budget, and the separator
does not. -/
def Overrun (size : Nat) (state : ChunkState) (para : Bytes) : Prop :=
  state.cur ≠ [] ∧ para ≠ [] ∧ state.cur.length + para.length ≤ size ∧ size < state.cur.length + 2 + para.length

/-- From a state on, no paragraph is torn and none overruns. -/
def Clear (size : Nat) (state : ChunkState) (paragraphs : List Bytes) : Prop :=
  ∀ front piece back before, paragraphs = front ++ piece :: back →
    front.foldlM (addPara size) state = some before →
      ¬ Torn size (trimSpace piece) ∧ ¬ Overrun size before (trimSpace piece)

theorem clear_cons {state next : ChunkState} {piece : Bytes} {rest : List Bytes}
    (step : addPara size state piece = some next) : Clear size state (piece :: rest) ↔
      (¬ Torn size (trimSpace piece) ∧ ¬ Overrun size state (trimSpace piece)) ∧ Clear size next rest := by
  constructor
  · intro clear
    refine ⟨clear [] piece rest state rfl rfl, ?_⟩
    intro front other back before here run
    refine clear (piece :: front) other back before (by rw [here]; rfl) ?_
    rw [List.foldlM_cons, step]
    exact run
  · intro clear front other back before here run
    cases front with
    | nil =>
      obtain ⟨rfl, rfl⟩ := List.cons.inj here
      cases run
      exact clear.1
    | cons first front =>
      obtain ⟨rfl, tail⟩ := List.cons.inj here
      rw [List.foldlM_cons, step] at run
      exact clear.2 front other back before tail run

/-! ### Termination -/

private theorem lastIndexOf_lt {mark : UInt8} {bytes : Bytes} {i : Nat} (found : lastIndexOf mark bytes = some i) :
    i < bytes.length := by
  induction bytes generalizing i with
  | nil => cases found
  | cons byte rest ih =>
    unfold lastIndexOf at found
    cases later : lastIndexOf mark rest with
    | some j =>
      rw [later] at found
      cases found
      exact Nat.succ_lt_succ (ih later)
    | none =>
      rw [later] at found
      simp only at found
      split_ifs at found
      cases found
      exact Nat.succ_pos _

theorem hardCut_le (size : Nat) (para : Bytes) : hardCut size para ≤ size := by
  unfold hardCut
  cases found : lastIndexOf newline (para.take size) with
  | none => exact le_rfl
  | some cut =>
    have inside := lastIndexOf_lt found
    rw [List.length_take] at inside
    simp only
    split_ifs <;> omega

theorem hardCut_pos (large : 2 ≤ size) (para : Bytes) : 0 < hardCut size para := by
  unfold hardCut
  cases lastIndexOf newline (para.take size) with
  | none => exact Nat.lt_of_lt_of_le Nat.two_pos large
  | some cut =>
    simp only
    split_ifs <;> omega

private theorem rest_shorter (large : 2 ≤ size) {para : Bytes} (long : size < para.length) :
    (trimSpace (para.drop (hardCut size para))).length < para.length := by
  have trimmed := length_trimSpace_le (para.drop (hardCut size para))
  have positive := hardCut_pos large para
  rw [List.length_drop] at trimmed
  omega

theorem hardSplit_some (large : 2 ≤ size) {fuel : Nat} {para : Bytes} (enough : para.length < fuel) (state : ChunkState) :
    ∃ split, hardSplit size fuel state para = some split := by
  induction fuel generalizing state para with
  | zero => exact absurd enough (Nat.not_lt_zero _)
  | succ fuel ih =>
    unfold hardSplit
    by_cases long : size < para.length
    · rw [if_pos long]
      have shorter := rest_shorter large long
      exact ih (by omega) _
    · exact ⟨(state, para), if_neg long⟩

theorem addPara_some (large : 2 ≤ size) (state : ChunkState) (piece : Bytes) :
    ∃ next, addPara size state piece = some next := by
  unfold addPara
  by_cases blank : trimSpace piece = []
  · exact ⟨state, if_pos blank⟩
  · obtain ⟨split, done⟩ := hardSplit_some large (Nat.lt_succ_self (trimSpace piece).length) state
    exact ⟨_, by simp only [if_neg blank, done]; rfl⟩

/-! ### Pieces stay -/

theorem flush_grows (state : ChunkState) : state.chunks ⊆ state.flush.chunks := by
  unfold ChunkState.flush
  split
  · exact List.subset_append_left _ _
  · exact List.Subset.refl _

theorem hardSplit_grows {fuel : Nat} {state : ChunkState} {para : Bytes} {split : ChunkState × Bytes}
    (done : hardSplit size fuel state para = some split) : state.chunks ⊆ split.1.chunks := by
  induction fuel generalizing state para with
  | zero => cases done
  | succ fuel ih =>
    unfold hardSplit at done
    by_cases long : size < para.length
    · rw [if_pos long] at done
      have later := ih done
      have flushed : state.chunks ⊆ (if state.cur ≠ [] then state.flush else state).chunks := by
        split
        · exact flush_grows state
        · exact List.Subset.refl _
      exact List.Subset.trans flushed (List.Subset.trans (List.subset_append_left _ _) later)
    · rw [if_neg long] at done
      cases done
      exact List.Subset.refl _

theorem append_grows (state : ChunkState) (para : Bytes) : state.chunks ⊆ (state.append size para).chunks := by
  unfold ChunkState.append
  by_cases full : state.cur ≠ [] ∧ size < state.cur.length + para.length
  · rw [if_pos full]
    exact flush_grows state
  · rw [if_neg full]
    exact List.Subset.refl _

theorem addPara_grows {state next : ChunkState} {piece : Bytes} (step : addPara size state piece = some next) :
    state.chunks ⊆ next.chunks := by
  unfold addPara at step
  by_cases blank : trimSpace piece = []
  · simp only [if_pos blank] at step
    cases step
    exact List.Subset.refl _
  · simp only [if_neg blank] at step
    obtain ⟨split, done, rfl⟩ := Option.map_eq_some_iff.mp step
    exact List.Subset.trans (hardSplit_grows done) (append_grows _ _)

theorem run_grows {paragraphs : List Bytes} {state final : ChunkState}
    (run : paragraphs.foldlM (addPara size) state = some final) : state.chunks ⊆ final.chunks := by
  induction paragraphs generalizing state with
  | nil =>
    cases run
    exact List.Subset.refl _
  | cons piece rest ih =>
    rw [List.foldlM_cons] at run
    obtain ⟨next, step, run⟩ := Option.bind_eq_some_iff.mp run
    exact List.Subset.trans (addPara_grows step) (ih run)

/-- A text in progress that is beyond the budget already becomes a piece as it is. -/
private theorem overfull_stays {cur : Text} (trimmed : Text.Trimmed cur) (excess : size < (encode cur).length)
    {paragraphs : List Bytes} {state final : ChunkState} (shown : state.cur = encode cur)
    (run : paragraphs.foldlM (addPara size) state = some final) : encode cur ∈ final.flush.chunks := by
  have some : encode cur ≠ [] := by
    intro none
    rw [none] at excess
    exact Nat.not_lt_zero _ excess
  have flushed (chunks : List Bytes) : encode cur ∈ (ChunkState.flush ⟨chunks, encode cur⟩).chunks := by
    unfold ChunkState.flush
    simp only [trimSpace_encode, trimmed.trimSpace, ne_eq, some, not_false_eq_true, if_true]
    exact List.mem_append_right _ (List.mem_singleton_self _)
  obtain ⟨chunks, shownCur⟩ := state
  obtain rfl : shownCur = encode cur := shown
  induction paragraphs with
  | nil =>
    cases run
    exact flushed chunks
  | cons piece rest ih =>
    rw [List.foldlM_cons] at run
    obtain ⟨next, step, run⟩ := Option.bind_eq_some_iff.mp run
    unfold addPara at step
    by_cases blank : trimSpace piece = []
    · simp only [if_pos blank] at step
      cases step
      exact ih run
    · simp only [if_neg blank] at step
      obtain ⟨split, done, rfl⟩ := Option.map_eq_some_iff.mp step
      apply flush_grows
      apply run_grows run
      unfold hardSplit at done
      by_cases long : size < (trimSpace piece).length
      · rw [if_pos long] at done
        apply append_grows
        apply hardSplit_grows done
        apply List.mem_append_left
        rw [if_pos some]
        exact flushed chunks
      · rw [if_neg long] at done
        cases done
        unfold ChunkState.append
        rw [if_pos ⟨some, by simp only; omega⟩]
        exact flushed chunks

/-! ### Torn paragraphs -/

/-- A valid prefix leaves a valid rest. -/
private theorem cut_texts {text : Text} {cut : Nat} (valid : Valid ((encode text).take cut)) :
    ∃ front back, text = front ++ back ∧ (encode text).take cut = encode front ∧ (encode text).drop cut = encode back := by
  obtain ⟨front, ⟨back, rfl⟩, same⟩ := valid_take.mp valid
  refine ⟨front, back, rfl, same.symm, ?_⟩
  have whole := List.take_append_drop cut (encode (front ++ back))
  rw [← same] at whole
  exact List.append_cancel_left (whole.trans (encode_append front back))

private theorem cut_bad {fuel : Nat} {state : ChunkState} {para : Bytes} {split : ChunkState × Bytes}
    (long : size < para.length) (inside : ¬ Valid (para.take (hardCut size para)))
    (done : hardSplit size fuel state para = some split) : ∃ chunk ∈ split.1.chunks, ¬ Valid chunk := by
  cases fuel with
  | zero => cases done
  | succ fuel =>
    unfold hardSplit at done
    rw [if_pos long] at done
    refine ⟨_, hardSplit_grows done ?_, fun valid => inside (valid_of_trimSpace valid)⟩
    exact List.mem_append_right _ (List.mem_singleton_self _)

theorem torn_bad {para : Bytes} (torn : Torn size para) (valid : Valid para) {fuel : Nat} {state : ChunkState}
    {split : ChunkState × Bytes} (done : hardSplit size fuel state para = some split) :
    ∃ chunk ∈ split.1.chunks, ¬ Valid chunk := by
  induction torn generalizing fuel state with
  | here long inside => exact cut_bad long inside done
  | @later para long torn ih =>
    by_cases inside : Valid (para.take (hardCut size para))
    · cases fuel with
      | zero => cases done
      | succ fuel =>
        unfold hardSplit at done
        rw [if_pos long] at done
        refine ih ?_ done
        rw [← valid] at inside ⊢
        obtain ⟨front, back, -, -, rest⟩ := cut_texts inside
        rw [rest, trimSpace_encode]
        exact valid_encode _
    · exact cut_bad long inside done

/-! ### Valid states -/

/-- A state whose pieces are texts within the budget. -/
structure Shows (size : Nat) (state : ChunkState) (texts : List Text) (cur : Text) : Prop where
  pieces : state.chunks = texts.map encode
  pending : state.cur = encode cur
  good : ∀ text ∈ texts, text ≠ [] ∧ (encode text).length ≤ size
  trimmed : Text.Trimmed cur
  small : (encode cur).length ≤ size

def seen (text : Text) : Text := text.filter fun c => !Text.isWhite c

@[simp] theorem seen_append (text more : Text) : seen (text ++ more) = seen text ++ seen more := List.filter_append ..

theorem seen_trimSpace (text : Text) : seen (Text.trimSpace text) = seen text := Text.filter_trimSpace text

variable {state : ChunkState} {texts : List Text} {cur : Text}

theorem Shows.blank_iff (shown : Shows size state texts cur) : state.cur = [] ↔ cur = [] := by
  rw [shown.pending, encode_eq_nil]

/-- What a flush makes of the pieces. -/
def flushed (texts : List Text) (cur : Text) : List Text := if cur = [] then texts else texts ++ [cur]

@[simp] theorem flatten_flushed (texts : List Text) (cur : Text) : (flushed texts cur).flatten = texts.flatten ++ cur := by
  unfold flushed
  by_cases blank : cur = []
  · rw [if_pos blank, blank, List.append_nil]
  · rw [if_neg blank, List.flatten_append, List.flatten_singleton]

theorem Shows.flush (shown : Shows size state texts cur) : Shows size state.flush (flushed texts cur) [] := by
  have trimmed : trimSpace state.cur = encode cur := by
    rw [shown.pending, trimSpace_encode, shown.trimmed.trimSpace]
  refine ⟨?_, rfl, ?_, ⟨fun _ none => (by cases none), fun _ none => (by cases none)⟩, Nat.zero_le _⟩
  · unfold ChunkState.flush flushed
    simp only [trimmed, ne_eq, encode_eq_nil, ite_not]
    by_cases blank : cur = []
    · rw [if_pos blank, if_pos blank, shown.pieces]
    · rw [if_neg blank, if_neg blank, shown.pieces, List.map_append, List.map_singleton]
  · intro text mem
    unfold flushed at mem
    by_cases blank : cur = []
    · rw [if_pos blank] at mem
      exact shown.good text mem
    · rw [if_neg blank] at mem
      rcases List.mem_append.mp mem with old | new
      · exact shown.good text old
      · rw [List.mem_singleton.mp new]
        exact ⟨blank, shown.small⟩

private theorem trimSpace_ne_nil {text : Text} {c : Char} (mem : c ∈ text) (visible : Text.isWhite c = false) :
    Text.trimSpace text ≠ [] := by
  intro none
  rw [Text.trimSpace_eq_nil.mp none c mem] at visible
  cases visible

/-- The pieces once a paragraph is about to be cut, and a cut piece behind them. -/
private theorem cut_shows (shown : Shows size state texts cur) {front : Text} (some : Text.trimSpace front ≠ [])
    (within : (encode front).length ≤ size) :
    Shows size ⟨(if state.cur ≠ [] then state.flush else state).chunks ++ [encode (Text.trimSpace front)],
        (if state.cur ≠ [] then state.flush else state).cur⟩
      (flushed texts cur ++ [Text.trimSpace front]) [] := by
  have before : Shows size (if state.cur ≠ [] then state.flush else state) (flushed texts cur) [] := by
    by_cases blank : state.cur = []
    · rw [if_neg (not_not.mpr blank), flushed, if_pos (shown.blank_iff.mp blank)]
      exact shown.blank_iff.mp blank ▸ shown
    · rw [if_pos blank]
      exact shown.flush
  refine ⟨?_, before.pending, ?_, before.trimmed, before.small⟩
  · rw [before.pieces, List.map_append, List.map_singleton]
  · intro text mem
    rcases List.mem_append.mp mem with old | new
    · exact before.good text old
    · rw [List.mem_singleton.mp new]
      have shorter := length_trimSpace_le (encode front)
      rw [trimSpace_encode] at shorter
      exact ⟨some, shorter.trans within⟩

theorem hardSplit_shows (large : 2 ≤ size) {fuel : Nat} {para : Text} (shown : Shows size state texts cur)
    (trimmed : Text.Trimmed para) (some : para ≠ []) (untorn : ¬ Torn size (encode para))
    (enough : (encode para).length < fuel) :
    ∃ next texts' cur' rest, hardSplit size fuel state (encode para) = Option.some (next, encode rest) ∧
      Shows size next texts' cur' ∧ Text.Trimmed rest ∧ rest ≠ [] ∧ (encode rest).length ≤ size ∧
      seen (texts'.flatten ++ cur' ++ rest) = seen (texts.flatten ++ cur ++ para) ∧
      (cur' = [] ∨ next = state ∧ rest = para) := by
  induction fuel generalizing state texts cur para with
  | zero => exact absurd enough (Nat.not_lt_zero _)
  | succ fuel ih =>
    unfold hardSplit
    by_cases long : size < (encode para).length
    · rw [if_pos long]
      have whole : Valid ((encode para).take (hardCut size (encode para))) := by
        by_contra inside
        exact untorn (.here long inside)
      have positive := hardCut_pos large (encode para)
      have within := hardCut_le size (encode para)
      have shorter := rest_shorter large long
      have later : ¬ Torn size (trimSpace ((encode para).drop (hardCut size (encode para)))) :=
        fun torn => untorn (.later long torn)
      obtain ⟨front, back, rfl, taken, dropped⟩ := cut_texts whole
      have frontLength : (encode front).length = hardCut size (encode (front ++ back)) := by
        rw [← taken, List.length_take]
        omega
      have frontSome : front ≠ [] := by
        rintro rfl
        rw [encode_nil, List.length_nil] at frontLength
        omega
      have backSome : back ≠ [] := by
        rintro rfl
        simp only [List.append_nil] at frontLength long within
        omega
      have frontSeen : Text.trimSpace front ≠ [] := by
        obtain ⟨c, rest, rfl⟩ := List.exists_cons_of_ne_nil frontSome
        exact trimSpace_ne_nil (List.mem_cons_self ..) (trimmed.first c rfl)
      have backSeen : Text.trimSpace back ≠ [] := by
        obtain ⟨init, c, rfl⟩ := List.eq_nil_or_concat' back |>.resolve_left backSome
        refine trimSpace_ne_nil (List.mem_append_right _ (List.mem_singleton_self c)) (trimmed.last c ?_)
        rw [← List.append_assoc, List.getLast?_concat]
        rfl
      rw [dropped, trimSpace_encode] at later shorter
      obtain ⟨next, texts', cur', rest, done, after, restTrimmed, restSome, fits, kept, idle⟩ :=
        ih (cut_shows shown frontSeen (frontLength ▸ within)) (Text.trimSpace_trimmed back) backSeen later (by omega)
      refine ⟨next, texts', cur', rest, ?_, after, restTrimmed, restSome, fits, ?_, ?_⟩
      · simp only [taken, dropped, trimSpace_encode]
        exact done
      · rw [kept]
        simp only [seen_append, seen_trimSpace, List.flatten_append, flatten_flushed, List.flatten_singleton,
          List.append_assoc, List.append_nil]
      · rcases idle with none | ⟨rfl, -⟩
        · exact .inl none
        · left
          have pending := after.pending
          by_cases blank : state.cur = []
          · rw [if_neg (not_not.mpr blank), blank] at pending
            exact encode_eq_nil.mp pending.symm
          · rw [if_pos blank] at pending
            exact encode_eq_nil.mp pending.symm
    · rw [if_neg long]
      exact ⟨state, texts, cur, para, rfl, shown, trimmed, some, by omega, rfl, .inr ⟨rfl, rfl⟩⟩

/-- A paragraph put behind the pending text. -/
private theorem append_behind {para : Text} (shown : Shows size state texts cur) (pending : state.cur ≠ [])
    (fits : state.cur.length + (encode para).length ≤ size) :
    state.append size (encode para) = ⟨texts.map encode, encode (cur ++ ['\n', '\n'] ++ para)⟩ := by
  unfold ChunkState.append
  rw [if_neg fun full => Nat.not_lt.mpr fits full.2]
  have separated : encode (cur ++ ['\n', '\n'] ++ para) = state.cur ++ [newline, newline] ++ encode para := by
    rw [encode_append, encode_append, shown.pending]
    rfl
  rw [separated, ← shown.pieces]
  exact congrArg (ChunkState.mk state.chunks <| · ++ encode para) (if_pos pending)

private theorem length_behind (shown : Shows size state texts cur) (para : Text) :
    (encode (cur ++ ['\n', '\n'] ++ para)).length = state.cur.length + 2 + (encode para).length := by
  rw [encode_append, encode_append, shown.pending, List.length_append, List.length_append]
  rfl

theorem append_shows {para : Text} (shown : Shows size state texts cur) (trimmed : Text.Trimmed para) (some : para ≠ [])
    (fits : (encode para).length ≤ size) (clear : ¬ Overrun size state (encode para)) :
    ∃ texts' cur', Shows size (state.append size (encode para)) texts' cur' ∧
      seen (texts'.flatten ++ cur') = seen (texts.flatten ++ cur ++ para) := by
  by_cases blank : state.cur = []
  · have alone : state.append size (encode para) = ⟨texts.map encode, encode para⟩ := by
      unfold ChunkState.append
      rw [if_neg fun full => full.1 blank, ← shown.pieces]
      have front : (if state.cur ≠ [] then state.cur ++ [newline, newline] else state.cur) = [] := by
        rw [if_neg (not_not.mpr blank), blank]
      exact congrArg (ChunkState.mk state.chunks <| · ++ encode para) front
    refine ⟨texts, para, ?_, ?_⟩
    · rw [alone]
      exact ⟨rfl, rfl, shown.good, trimmed, fits⟩
    · rw [shown.blank_iff.mp blank, List.append_nil]
  · by_cases full : size < state.cur.length + (encode para).length
    · refine ⟨flushed texts cur, para, ?_, by rw [flatten_flushed]⟩
      unfold ChunkState.append
      rw [if_pos ⟨blank, full⟩]
      exact ⟨shown.flush.pieces, rfl, shown.flush.good, trimmed, fits⟩
    · have curSome : cur ≠ [] := fun none => blank (shown.blank_iff.mpr none)
      have together : state.cur.length + (encode para).length ≤ size := Nat.le_of_not_lt full
      refine ⟨texts, cur ++ ['\n', '\n'] ++ para, ?_, ?_⟩
      · rw [append_behind shown blank together]
        refine ⟨rfl, rfl, shown.good, shown.trimmed.append trimmed _ curSome some, ?_⟩
        rw [length_behind shown]
        by_contra beyond
        exact clear ⟨blank, fun none => some (encode_eq_nil.mp none), together, Nat.lt_of_not_le beyond⟩
      · have gap : seen ['\n', '\n'] = [] := by decide
        simp only [seen_append, gap, List.append_assoc, List.nil_append]

/-- One turn of the loop, where it goes well. -/
theorem addPara_shows (large : 2 ≤ size) {piece : Text} (shown : Shows size state texts cur)
    (untorn : ¬ Torn size (trimSpace (encode piece))) (clear : ¬ Overrun size state (trimSpace (encode piece))) :
    ∃ next texts' cur', addPara size state (encode piece) = some next ∧ Shows size next texts' cur' ∧
      seen (texts'.flatten ++ cur') = seen (texts.flatten ++ cur ++ piece) := by
  rw [trimSpace_encode] at untorn clear
  unfold addPara
  simp only [trimSpace_encode, encode_eq_nil]
  by_cases blank : Text.trimSpace piece = []
  · refine ⟨state, texts, cur, if_pos blank, shown, ?_⟩
    have none : seen piece = [] := by rw [← seen_trimSpace, blank]; rfl
    rw [seen_append _ piece, none, List.append_nil]
  · rw [if_neg blank]
    obtain ⟨next, texts', cur', rest, done, after, restTrimmed, restSome, fits, kept, idle⟩ :=
      hardSplit_shows large shown (Text.trimSpace_trimmed piece) blank untorn (Nat.lt_succ_self _)
    have room : ¬ Overrun size next (encode rest) := by
      rcases idle with none | ⟨rfl, rfl⟩
      · exact fun excess => excess.1 (after.blank_iff.mpr none)
      · exact clear
    obtain ⟨texts'', cur'', final, kept'⟩ := append_shows after restTrimmed restSome fits room
    refine ⟨_, texts'', cur'', by rw [done]; rfl, final, ?_⟩
    rw [kept', kept, seen_append, seen_trimSpace, ← seen_append]

/-- One turn of the loop, where a paragraph is torn or overruns. -/
theorem addPara_bad {piece : Text} (shown : Shows size state texts cur)
    (bad : ¬ (¬ Torn size (trimSpace (encode piece)) ∧ ¬ Overrun size state (trimSpace (encode piece))))
    {rest : List Bytes} {final : ChunkState}
    (run : (encode piece :: rest).foldlM (addPara size) state = some final) :
    ∃ chunk ∈ final.flush.chunks, ¬ Valid chunk ∨ size < chunk.length := by
  rw [List.foldlM_cons] at run
  obtain ⟨next, step, run⟩ := Option.bind_eq_some_iff.mp run
  by_cases torn : Torn size (trimSpace (encode piece))
  · unfold addPara at step
    rw [trimSpace_encode] at step torn
    by_cases blank : encode (Text.trimSpace piece) = []
    · rw [blank] at torn
      cases torn with
      | here long => exact absurd long (Nat.not_lt_zero _)
      | later long => exact absurd long (Nat.not_lt_zero _)
    · simp only [if_neg blank] at step
      obtain ⟨split, done, rfl⟩ := Option.map_eq_some_iff.mp step
      obtain ⟨chunk, mem, invalid⟩ := torn_bad torn (valid_encode _) done
      exact ⟨chunk, flush_grows _ (run_grows run (append_grows _ _ mem)), .inl invalid⟩
  · have excess : Overrun size state (trimSpace (encode piece)) := by
      by_contra clear
      exact bad ⟨torn, clear⟩
    rw [trimSpace_encode] at excess
    obtain ⟨pending, some, fits, beyond⟩ := excess
    have written : next = ⟨texts.map encode, encode (cur ++ ['\n', '\n'] ++ Text.trimSpace piece)⟩ := by
      unfold addPara at step
      simp only [trimSpace_encode, if_neg some] at step
      obtain ⟨split, done, rfl⟩ := Option.map_eq_some_iff.mp step
      unfold hardSplit at done
      rw [if_neg (by omega)] at done
      cases done
      exact append_behind shown pending fits
    have curSome : cur ≠ [] := fun none => pending (shown.blank_iff.mpr none)
    have trimmed : Text.Trimmed (cur ++ ['\n', '\n'] ++ Text.trimSpace piece) :=
      shown.trimmed.append (Text.trimSpace_trimmed piece) _ curSome fun none => some (encode_eq_nil.mpr none)
    have excess : size < (encode (cur ++ ['\n', '\n'] ++ Text.trimSpace piece)).length := by
      rw [length_behind shown]
      exact beyond
    exact ⟨_, overfull_stays trimmed excess (by rw [written]) run, .inr excess⟩

/-! ### The whole loop -/

theorem run_some (large : 2 ≤ size) (paragraphs : List Bytes) (state : ChunkState) :
    ∃ final, paragraphs.foldlM (addPara size) state = some final := by
  induction paragraphs generalizing state with
  | nil => exact ⟨state, rfl⟩
  | cons piece rest ih =>
    obtain ⟨next, step⟩ := addPara_some large state piece
    obtain ⟨final, run⟩ := ih next
    exact ⟨final, by rw [List.foldlM_cons, step]; exact run⟩

/-- The pieces of texts hold what the texts hold. -/
private theorem visible_texts (texts : List Text) : visible (texts.map encode).flatten = encode (seen texts.flatten) := by
  have joined : (texts.map encode).flatten = encode texts.flatten := by
    induction texts with
    | nil => rfl
    | cons text rest ih => rw [List.map_cons, List.flatten_cons, List.flatten_cons, encode_append, ih]
  rw [joined, visible_encode]
  rfl

theorem run_right (large : 2 ≤ size) {paragraphs : List Text} (shown : Shows size state texts cur) {final : ChunkState}
    (run : (paragraphs.map encode).foldlM (addPara size) state = some final) :
    ((∀ chunk ∈ final.flush.chunks, chunk ≠ [] ∧ Valid chunk ∧ chunk.length ≤ size) ∧
      visible final.flush.chunks.flatten = encode (seen (texts.flatten ++ cur ++ paragraphs.flatten))) ↔
    Clear size state (paragraphs.map encode) := by
  induction paragraphs generalizing state texts cur with
  | nil =>
    cases run
    refine iff_of_true ⟨?_, ?_⟩ ?_
    · intro chunk mem
      rw [shown.flush.pieces] at mem
      obtain ⟨text, inside, rfl⟩ := List.mem_map.mp mem
      obtain ⟨some, fits⟩ := shown.flush.good text inside
      exact ⟨fun none => some (encode_eq_nil.mp none), valid_encode text, fits⟩
    · rw [shown.flush.pieces, visible_texts, flatten_flushed, List.flatten_nil, List.append_nil]
    · intro front piece back before here
      cases front <;> cases here
  | cons piece rest ih =>
    rw [List.map_cons] at run ⊢
    by_cases good : ¬ Torn size (trimSpace (encode piece)) ∧ ¬ Overrun size state (trimSpace (encode piece))
    · obtain ⟨next, texts', cur', step, after, kept⟩ := addPara_shows large shown good.1 good.2
      rw [List.foldlM_cons, step] at run
      rw [clear_cons step, and_iff_right good, ← ih after run, List.flatten_cons, ← List.append_assoc,
        seen_append (_ ++ piece), ← kept, ← seen_append]
    · obtain ⟨next, step⟩ := addPara_some large state (encode piece)
      rw [clear_cons step]
      refine iff_of_false ?_ fun clear => good clear.1
      intro right
      obtain ⟨chunk, mem, bad⟩ := addPara_bad shown good run
      obtain ⟨-, valid, fits⟩ := right.1 chunk mem
      rcases bad with invalid | excess
      · exact invalid valid
      · exact Nat.not_lt.mpr fits excess

theorem splitPairs_encode (text : Text) : splitPairs newline (encode text) = (splitPairs '\n' text).map encode := by
  have ascii : '\n'.toNat < 0x80 := by decide
  have free {c : Char} (plain : c ≠ '\n') : newline ∉ String.utf8EncodeChar c := by
    intro mem
    have same : byteOf '\n' ∈ String.utf8EncodeChar c := mem
    exact plain ((byteOf_mem_encodeChar ascii).mp same)
  induction text using splitPairs.induct '\n' with
  | case1 => rfl
  | case2 c =>
    by_cases same : c = '\n'
    · subst same
      rfl
    · rw [encode_cons, splitPairs_append (free same)]
      rfl
  | case3 c d rest both ih =>
    obtain ⟨rfl, rfl⟩ := both
    rw [splitPairs, if_pos ⟨rfl, rfl⟩, List.map_cons, ← ih]
    exact if_pos ⟨rfl, rfl⟩
  | case4 c d rest other ih =>
    have prepended : splitPairs newline (encode (c :: d :: rest)) =
        (splitPairs newline (encode (d :: rest))).modifyHead (String.utf8EncodeChar c ++ ·) := by
      by_cases same : c = '\n'
      · subst same
        refine splitPairs_cons _ (.inr ?_)
        intro first
        have second : (d :: rest).head? = some '\n' := (head_encode ascii).mp first
        exact other ⟨rfl, Option.some.inj second⟩
      · rw [encode_cons, splitPairs_append (free same)]
    rw [prepended, ih, splitPairs, if_neg other]
    cases splitPairs '\n' (d :: rest) with
    | nil => rfl
    | cons part parts => rw [List.map_cons, List.modifyHead_cons, List.modifyHead_cons, List.map_cons, encode_cons]

/-- No hard cut of the text falls inside a character, and no separator overruns the
budget. -/
def Untroubled (size : Nat) (text : Bytes) : Prop := Clear size ⟨[], []⟩ (splitPairs newline (trimSpace text))

private theorem start_shows (size : Nat) : Shows size ⟨[], []⟩ [] [] :=
  ⟨rfl, rfl, fun _ mem => (by cases mem), ⟨fun _ none => (by cases none), fun _ none => (by cases none)⟩, Nat.zero_le _⟩

private theorem chunkText_run (large : 2 ≤ size) (text : Bytes) : ∃ final : ChunkState,
    (splitPairs newline (trimSpace text)).foldlM (addPara size) ⟨[], []⟩ = some final ∧
      chunkText size text = some final.flush.chunks := by
  unfold chunkText
  by_cases blank : trimSpace text = []
  · refine ⟨⟨[], []⟩, ?_, if_pos blank⟩
    rw [blank]
    rfl
  · obtain ⟨final, run⟩ := run_some large (splitPairs newline (trimSpace text)) ⟨[], []⟩
    refine ⟨final, run, ?_⟩
    simp only [if_neg blank, run, Option.map_some]

/-- The pieces of any text are what they should be exactly if the text is untroubled. -/
theorem chunks_right (large : 2 ≤ size) (text : Text) : ∃ chunks, chunkText size (encode text) = some chunks ∧
    (Right size (encode text) chunks ↔ Untroubled size (encode text)) := by
  obtain ⟨final, run, answer⟩ := chunkText_run large (encode text)
  refine ⟨_, answer, ?_⟩
  have parts : splitPairs newline (trimSpace (encode text)) = (splitPairs '\n' (Text.trimSpace text)).map encode := by
    rw [trimSpace_encode, splitPairs_encode]
  have held : visible (encode text) =
      encode (seen ([].flatten ++ [] ++ (splitPairs '\n' (Text.trimSpace text)).flatten)) := by
    have all := splitPairs_filter (fun c => !Text.isWhite c) (by decide : (!Text.isWhite '\n') = false) (Text.trimSpace text)
    rw [visible_encode]
    refine congrArg encode ((seen_trimSpace text).symm.trans (all.symm.trans ?_))
    exact List.filter_flatten.symm
  unfold Untroubled
  rw [parts] at run ⊢
  refine Iff.trans ?_ (run_right large (start_shows size) run)
  rw [← held]
  exact ⟨fun right => ⟨right.chunk, right.whole⟩, fun right => ⟨right.1, right.2⟩⟩

theorem short_paragraphs : ∃ chunks, chunkText 6 (encode "ab\n\ncd".toList) = some chunks ∧
    (Right 6 (encode "ab\n\ncd".toList) chunks ↔ Untroubled 6 (encode "ab\n\ncd".toList)) :=
  chunks_right (by decide) _

/-! One letter of one byte and five hundred of two, cut after a thousand bytes. -/

def accents (n : Nat) : Text := 'x' :: List.replicate n 'é'

private theorem length_accents (n : Nat) : (encode (accents n)).length = 1 + 2 * n := by
  have letters : (encode (List.replicate n 'é')).length = 2 * n := by
    induction n with
    | zero => rfl
    | succ n ih =>
      have one : (String.utf8EncodeChar 'é').length = 2 := by decide
      rw [List.replicate_succ, encode_cons, List.length_append, ih, one]
      omega
  have one : (String.utf8EncodeChar 'x').length = 1 := by decide
  rw [accents, encode_cons, List.length_append, letters, one]

private theorem lastIndexOf_none {mark : UInt8} {bytes : Bytes} (free : mark ∉ bytes) : lastIndexOf mark bytes = none := by
  induction bytes with
  | nil => rfl
  | cons byte rest ih =>
    have other : byte ≠ mark := fun same => free (same ▸ List.mem_cons_self)
    rw [lastIndexOf, ih fun mem => free (List.mem_cons_of_mem _ mem)]
    exact if_neg other

private theorem accents_line (n : Nat) : '\n' ∉ accents n := by
  intro mem
  rcases List.mem_cons.mp mem with here | later
  · exact absurd here (by decide)
  · exact absurd (List.eq_of_mem_replicate later) (by decide)

private theorem accents_torn : Torn 1000 (encode (accents 500)) := by
  have plain : newline ∉ encode (accents 500) := by
    intro mem
    exact accents_line 500 ((byteOf_mem_encode (by decide)).mp mem)
  have cut : hardCut 1000 (encode (accents 500)) = 1000 := by
    rw [hardCut, lastIndexOf_none fun mem => plain (List.mem_of_mem_take mem)]
  refine .here (by rw [length_accents]; decide) ?_
  rw [cut]
  intro valid
  obtain ⟨front, within, same⟩ := valid_take.mp valid
  have length := congrArg List.length same
  rw [List.length_take, length_accents] at length
  cases front with
  | nil => exact absurd length (by decide)
  | cons c front =>
    obtain ⟨rfl, letters⟩ := List.cons_prefix_cons.mp within
    have few : front = List.replicate front.length 'é' :=
      List.eq_replicate_iff.mpr ⟨rfl, fun d mem => List.eq_of_mem_replicate (letters.subset mem)⟩
    have odd := length_accents front.length
    rw [accents, ← few] at odd
    omega

theorem torn_text : ∃ chunks, chunkText 1000 (encode (accents 500)) = some chunks ∧
    ¬ Right 1000 (encode (accents 500)) chunks := by
  obtain ⟨final, run, answer⟩ := chunkText_run (by decide : 2 ≤ 1000) (encode (accents 500))
  refine ⟨_, answer, ?_⟩
  have trimmed : Text.trimSpace (accents 500) = accents 500 := by
    refine Text.Trimmed.trimSpace ⟨fun c first => ?_, fun c last => ?_⟩
    · cases first
      decide
    · have mem := List.mem_of_getLast? last
      rcases List.mem_cons.mp mem with rfl | later
      · decide
      · rw [List.eq_of_mem_replicate later]
        decide
  have parts : splitPairs newline (trimSpace (encode (accents 500))) = [encode (accents 500)] := by
    rw [trimSpace_encode, trimmed, splitPairs_encode, ← List.append_nil (accents 500),
      splitPairs_append (accents_line 500)]
    rfl
  rw [parts] at run
  have bad : ¬ (¬ Torn 1000 (trimSpace (encode (accents 500))) ∧
      ¬ Overrun 1000 ⟨[], []⟩ (trimSpace (encode (accents 500)))) := by
    rw [trimSpace_encode, trimmed]
    exact fun good => good.1 accents_torn
  obtain ⟨chunk, mem, wrong⟩ := addPara_bad (start_shows 1000) bad run
  intro right
  obtain ⟨-, valid, fits⟩ := right.chunk chunk mem
  rcases wrong with invalid | excess
  · exact invalid valid
  · exact Nat.not_lt.mpr fits excess

end ChunkText
end Dropway.Api
