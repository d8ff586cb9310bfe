import Dropway.Lib.Utf8

/-! Percent-encoding and paths of the URL standard. A parsed path is a list of
segments in normal form; writing a path back is parsing it after a prefix. -/

namespace Dropway.Lib.Uri

def hexValue (c : Char) : Option Nat :=
  if '0' ≤ c ∧ c ≤ '9' then some (c.toNat - '0'.toNat)
  else if 'A' ≤ c ∧ c ≤ 'F' then some (c.toNat - 'A'.toNat + 10)
  else if 'a' ≤ c ∧ c ≤ 'f' then some (c.toNat - 'a'.toNat + 10)
  else none

def hexByte (high low : Char) : Option Nat := do
  let h ← hexValue high
  let l ← hexValue low
  return h * 16 + l

/-! ### decodeURIComponent -/

/-- A string after its escapes are read: characters that stood for themselves,
and the octets of the others. -/
inductive Piece where
  | char (c : Char)
  | octet (byte : Nat)
  deriving Repr, DecidableEq

def pieces : Text → Option (List Piece)
  | [] => some []
  | '%' :: high :: low :: rest => do
    let byte ← hexByte high low
    let tail ← pieces rest
    return .octet byte :: tail
  | '%' :: _ => none
  | c :: rest => (.char c :: ·) <$> pieces rest

def continuation (byte : Nat) : Option Nat :=
  if 0x80 ≤ byte ∧ byte ≤ 0xBF then some (byte - 0x80) else none

/-- The scalar value of a sequence: shortest form, and not a surrogate. -/
def scalar (least point : Nat) : Option Char :=
  if least ≤ point ∧ point.isValidChar then some (Char.ofNat point) else none

/-- An unfinished sequence: how many octets are missing, the value so far, and
the least value a sequence of its length may have. -/
structure Sequence where
  missing : Nat := 0
  point : Nat := 0
  least : Nat := 0
  deriving Repr, DecidableEq

def leadOctet (byte : Nat) : Option Sequence :=
  if byte < 0x80 then some { missing := 0, point := byte }
  else if 0xC0 ≤ byte ∧ byte ≤ 0xDF then some { missing := 1, point := byte - 0xC0, least := 0x80 }
  else if 0xE0 ≤ byte ∧ byte ≤ 0xEF then some { missing := 2, point := byte - 0xE0, least := 0x800 }
  else if 0xF0 ≤ byte ∧ byte ≤ 0xF7 then some { missing := 3, point := byte - 0xF0, least := 0x10000 }
  else none

/-- Read one octet into the sequence. -/
def Sequence.read (run : Sequence) (byte : Nat) : Option Sequence :=
  if run.missing = 0 then leadOctet byte
  else (continuation byte).map fun value =>
    { run with missing := run.missing - 1, point := run.point * 64 + value }

def assembleFrom (run : Sequence) : List Piece → Option Text
  | [] => if run.missing = 0 then some [] else none
  | .char c :: rest => if run.missing = 0 then (assembleFrom {} rest).map (c :: ·) else none
  | .octet byte :: rest =>
    match run.read byte with
    | none => none
    | some next =>
      if next.missing = 0 then
        (scalar next.least next.point).bind fun c => (assembleFrom {} rest).map (c :: ·)
      else assembleFrom next rest

/-- `none` where the built-in throws a `URIError`. -/
def decodeURIComponent (text : Text) : Option Text := (pieces text).bind (assembleFrom {})

private theorem hexByte_slash_low (high : Char) : hexByte high '/' = none := by
  have slash : hexValue '/' = none := by decide
  cases h : hexValue high <;> simp [hexByte, h, slash]

private theorem hexByte_slash_high (low : Char) : hexByte '/' low = none := by
  have slash : hexValue '/' = none := by decide
  simp [hexByte, slash]

private theorem pieces_char {c : Char} (literal : c ≠ '%') (rest : Text) :
    pieces (c :: rest) = (pieces rest).map (.char c :: ·) := by
  rw [pieces]
  · rfl
  · intro high low more same
    exact absurd same literal
  · exact literal

theorem pieces_append_slash (front back : Text) :
    pieces (front ++ '/' :: back) =
      (pieces front).bind fun f => (pieces ('/' :: back)).map (f ++ ·) := by
  fun_induction pieces front with
  | case1 => simp
  | case2 high low rest ih =>
    cases byte : hexByte high low with
    | none => simp [pieces, byte]
    | some value =>
      simp only [List.cons_append, pieces, byte, ih]
      cases pieces rest <;> cases pieces ('/' :: back) <;> simp
  | case3 rest short =>
    match rest with
    | [] => cases back <;> simp [pieces, hexByte_slash_high]
    | [high] => simp [pieces, hexByte_slash_low]
    | high :: low :: more => exact absurd rfl (short high low more)
  | case4 c rest escape literal ih =>
    rw [List.cons_append, pieces_char literal, ih]
    cases pieces rest <;> cases pieces ('/' :: back) <;> simp

private theorem assembleFrom_append_char (run : Sequence) (front : List Piece) (c : Char)
    (back : List Piece) :
    assembleFrom run (front ++ .char c :: back) =
      (assembleFrom run front).bind fun f => (assembleFrom {} (.char c :: back)).map (f ++ ·) := by
  induction front generalizing run with
  | nil =>
    by_cases done : run.missing = 0
    · cases tail : assembleFrom {} back <;> simp [assembleFrom, done, tail]
    · simp [assembleFrom, done]
  | cons piece front ih =>
    cases piece with
    | char d =>
      by_cases done : run.missing = 0
      · simp only [List.cons_append, assembleFrom, done, if_true, ih {}]
        cases assembleFrom {} front <;> cases assembleFrom {} back <;> simp
      · simp [assembleFrom, done]
    | octet byte =>
      simp only [List.cons_append, assembleFrom]
      cases run.read byte with
      | none => rfl
      | some next =>
        by_cases done : next.missing = 0
        · simp only [done, if_true, ih {}]
          cases scalar next.least next.point <;> cases assembleFrom {} front <;>
            cases tail : assembleFrom {} back <;> simp [assembleFrom, tail]
        · simp only [done, if_false, ih next, assembleFrom, if_true]

/-- A slash ends every escape, so decoding works segment by segment. -/
theorem decodeURIComponent_append_slash (front back : Text) :
    decodeURIComponent (front ++ '/' :: back) =
      (decodeURIComponent front).bind fun f =>
        (decodeURIComponent ('/' :: back)).map (f ++ ·) := by
  have slash : pieces ('/' :: back) = (pieces back).map (.char '/' :: ·) :=
    pieces_char (by decide) back
  simp only [decodeURIComponent, pieces_append_slash, slash]
  cases pieces front with
  | none => rfl
  | some f =>
    cases pieces back with
    | none => cases assembleFrom {} f <;> simp
    | some b => simpa using assembleFrom_append_char {} f '/' b

theorem decodeURIComponent_char {c : Char} (literal : c ≠ '%') (rest : Text) :
    decodeURIComponent (c :: rest) = (decodeURIComponent rest).map (c :: ·) := by
  rw [decodeURIComponent, pieces_char literal, decodeURIComponent]
  cases pieces rest <;> simp [assembleFrom]

theorem decodeURIComponent_literal {text : Text} (literal : '%' ∉ text) :
    decodeURIComponent text = some text := by
  induction text with
  | nil => rfl
  | cons c rest ih =>
    have here : c ≠ '%' := fun same => literal (by simp [same])
    rw [decodeURIComponent_char here, ih fun later => literal (List.mem_cons_of_mem c later)]
    rfl

/-! ### Paths -/

def hexDigit (value : Nat) : Char :=
  Char.ofNat (if value < 10 then '0'.toNat + value else 'A'.toNat + (value - 10))

def percentEncode (c : Char) : Text :=
  (Utf8.encode [c]).flatMap fun byte =>
    ['%', hexDigit (byte.toNat / 16), hexDigit (byte.toNat % 16)]

/-- The complement of the path percent-encode set. -/
def pathChar (c : Char) : Bool :=
  ' ' < c && c ≤ '~' && !"\"#<>?^`{}".toList.contains c

def encodeSegment (segment : Text) : Text :=
  segment.flatMap fun c => if pathChar c then [c] else percentEncode c

def isSingleDot (segment : Text) : Bool :=
  (segment.map Char.toLower) ∈ [".".toList, "%2e".toList]

def isDoubleDot (segment : Text) : Bool :=
  (segment.map Char.toLower) ∈ ["..".toList, ".%2e".toList, "%2e.".toList, "%2e%2e".toList]

/-- The path state of the URL parser, one segment a step. -/
def advance (path : List Text) (segment : Text) : List Text :=
  if isDoubleDot segment then path.dropLast
  else if isSingleDot segment then path
  else path ++ [encodeSegment segment]

/-- A dot segment at the end leaves an empty segment behind. -/
def walk (path : List Text) : List Text → List Text
  | [] => path
  | [segment] =>
    if isDoubleDot segment || isSingleDot segment then advance path segment ++ [[]]
    else advance path segment
  | segment :: rest => walk (advance path segment) rest

/-- What is assigned to `pathname`: tabs and line breaks go, `\` reads as `/`. -/
def scrub (input : Text) : Text :=
  (input.filter fun c => !"\t\n\r".toList.contains c).map fun c => if c = '\\' then '/' else c

def separate (input : Text) : List Text :=
  (if (scrub input).head? = some '/' then (scrub input).tail else scrub input).splitOn '/'

def parsePath (input : Text) : List Text := walk [] (separate input)

def serialize (segments : List Text) : Text := segments.flatMap ('/' :: ·)

/-- A segment that parsing leaves as it is. -/
def Plain (segment : Text) : Prop :=
  (∀ c ∈ segment, pathChar c ∧ c ≠ '/' ∧ c ≠ '\\') ∧
    ¬ isSingleDot segment ∧ ¬ isDoubleDot segment

instance (segment : Text) : Decidable (Plain segment) :=
  @instDecidableAnd _ _ (List.decidableBAll (fun c => pathChar c ∧ c ≠ '/' ∧ c ≠ '\\') segment)
    inferInstance

/-- The path of a parsed URL. -/
structure Path where
  segments : List Text
  nonempty : segments ≠ []
  plain : ∀ segment ∈ segments, Plain segment

private theorem percentEncode_slash_free (c : Char) : '/' ∉ percentEncode c := by
  have digit : ∀ value < 16, hexDigit value ≠ '/' := by decide
  intro member
  obtain ⟨byte, -, here⟩ := List.mem_flatMap.mp member
  have high : byte.toNat / 16 < 16 := by have := byte.toNat_lt; omega
  have low : byte.toNat % 16 < 16 := Nat.mod_lt _ (by decide)
  simp only [List.mem_cons, List.not_mem_nil, or_false] at here
  rcases here with same | same | same
  · exact absurd same (by decide)
  · exact digit _ high same.symm
  · exact digit _ low same.symm

private theorem encodeSegment_slash_free {segment : Text} (free : '/' ∉ segment) :
    '/' ∉ encodeSegment segment := by
  intro member
  obtain ⟨c, inside, here⟩ := List.mem_flatMap.mp member
  split at here
  · rw [List.mem_singleton] at here
    exact free (here ▸ inside)
  · exact percentEncode_slash_free c here

theorem encodeSegment_plain {segment : Text} (plain : Plain segment) :
    encodeSegment segment = segment := by
  have kept : ∀ c ∈ segment, (if pathChar c then [c] else percentEncode c) = [c] :=
    fun c member => if_pos (plain.1 c member).1
  calc segment.flatMap (fun c => if pathChar c then [c] else percentEncode c)
      = segment.flatMap fun c => [c] := List.flatMap_congr kept
    _ = segment := List.flatMap_singleton' segment

theorem no_dot_segment {segment : Text} (dotless : '.' ∉ segment.map Char.toLower)
    (literal : '%' ∉ segment.map Char.toLower) :
    ¬ isSingleDot segment ∧ ¬ isDoubleDot segment := by
  constructor <;> intro listed
  all_goals
    simp only [isSingleDot, isDoubleDot, decide_eq_true_eq, List.mem_cons, List.not_mem_nil,
      or_false] at listed
  · rcases listed with same | same
    · exact dotless (by rw [same]; decide)
    · exact literal (by rw [same]; decide)
  · rcases listed with same | same | same | same
    · exact dotless (by rw [same]; decide)
    · exact dotless (by rw [same]; decide)
    · exact dotless (by rw [same]; decide)
    · exact literal (by rw [same]; decide)

/-- The segments that a prefix leaves behind hold no slash. -/
theorem foldl_advance_slash_free {path segments : List Text}
    (free : ∀ segment ∈ path, '/' ∉ segment) (free' : ∀ segment ∈ segments, '/' ∉ segment) :
    ∀ segment ∈ segments.foldl advance path, '/' ∉ segment := by
  induction segments generalizing path with
  | nil => exact free
  | cons segment rest ih =>
    refine ih ?_ fun s member => free' s (List.mem_cons_of_mem segment member)
    intro s member
    unfold advance at member
    split_ifs at member
    · exact free s (List.dropLast_subset path member)
    · exact free s member
    · rcases List.mem_append.mp member with old | new
      · exact free s old
      · rw [List.mem_singleton] at new
        subst new
        exact encodeSegment_slash_free (free' segment (by simp))

private theorem advance_plain (path : List Text) {segment : Text} (plain : Plain segment) :
    advance path segment = path ++ [segment] := by
  rw [advance, if_neg plain.2.2, if_neg plain.2.1, encodeSegment_plain plain]

private theorem walk_cons (path : List Text) (segment : Text) {rest : List Text}
    (more : rest ≠ []) : walk path (segment :: rest) = walk (advance path segment) rest := by
  cases rest with
  | nil => exact absurd rfl more
  | cons next rest => rfl

private theorem walk_last (path : List Text) {segment : Text}
    (notSingle : ¬ isSingleDot segment) (notDouble : ¬ isDoubleDot segment) :
    walk path [segment] = advance path segment := by
  simp [walk, notSingle, notDouble]

private theorem walk_plain (path : List Text) {segments : List Text}
    (plain : ∀ segment ∈ segments, Plain segment) : walk path segments = path ++ segments := by
  induction segments generalizing path with
  | nil => simp [walk]
  | cons segment rest ih =>
    have here := plain segment (by simp)
    have later := fun s member => plain s (List.mem_cons_of_mem segment member)
    by_cases more : rest = []
    · subst more
      rw [walk_last path here.2.1 here.2.2, advance_plain path here]
    · rw [walk_cons path segment more, ih _ later, advance_plain path here]
      simp

private theorem walk_append (path front : List Text) {back : List Text} (nonempty : back ≠ [])
    (plain : ∀ segment ∈ back, Plain segment) :
    walk path (front ++ back) = front.foldl advance path ++ back := by
  induction front generalizing path with
  | nil => exact walk_plain path plain
  | cons segment front ih =>
    rw [List.cons_append, walk_cons path segment (by simp [nonempty]), ih, List.foldl_cons]

theorem splitOn_serialize (front : Text) {segments : List Text}
    (free : ∀ segment ∈ segments, '/' ∉ segment) :
    (front ++ serialize segments).splitOn '/' = front.splitOn '/' ++ segments := by
  induction segments generalizing front with
  | nil => simp [serialize]
  | cons segment rest ih =>
    have here := free segment (by simp)
    have later := fun s member => free s (List.mem_cons_of_mem segment member)
    have shape : front ++ serialize (segment :: rest) = front ++ '/' :: (segment ++ serialize rest) := by
      simp [serialize]
    rw [shape, List.splitOn_append_cons_self, ih segment later, List.splitOn_eq_singleton here]
    simp

theorem serialize_injective {first second : List Text}
    (free : ∀ segment ∈ first, '/' ∉ segment) (free' : ∀ segment ∈ second, '/' ∉ segment)
    (same : serialize first = serialize second) : first = second := by
  have split := splitOn_serialize [] free
  rw [same, splitOn_serialize [] free'] at split
  simpa using split.symm

theorem Plain.slash_free {segment : Text} (plain : Plain segment) : '/' ∉ segment :=
  fun member => (plain.1 _ member).2.1 rfl

private theorem scrub_append (front back : Text) : scrub (front ++ back) = scrub front ++ scrub back := by
  simp [scrub]

theorem scrub_kept {text : Text} (kept : ∀ c ∈ text, pathChar c ∧ c ≠ '\\') :
    scrub text = text := by
  have visible : ∀ c ∈ text, (!"\t\n\r".toList.contains c) = true := by
    intro c member
    have differs (d : Char) (encoded : pathChar d = false) : c ≠ d := by
      rintro rfl
      simp [(kept c member).1] at encoded
    simp [differs '\t' (by decide), differs '\n' (by decide), differs '\r' (by decide)]
  rw [scrub, List.filter_eq_self.mpr visible]
  exact (List.map_congr_left fun c member => if_neg (kept c member).2).trans (List.map_id text)

private theorem scrub_serialize {segments : List Text}
    (plain : ∀ segment ∈ segments, Plain segment) :
    scrub (serialize segments) = serialize segments := by
  apply scrub_kept
  intro c member
  obtain ⟨segment, inside, here⟩ := List.mem_flatMap.mp member
  rcases List.mem_cons.mp here with rfl | here
  · decide
  · exact ⟨((plain segment inside).1 c here).1, ((plain segment inside).1 c here).2.2⟩

private theorem separate_append {base : Text} (rooted : base.head? = some '/')
    {segments : List Text} (plain : ∀ segment ∈ segments, Plain segment) :
    separate (base ++ serialize segments) = separate base ++ segments := by
  obtain ⟨rest, rfl⟩ : ∃ rest, base = '/' :: rest := by
    cases base with
    | nil => cases rooted
    | cons c rest => exact ⟨rest, by simpa using rooted⟩
  have start : scrub ('/' :: rest) = '/' :: scrub rest := scrub_append ['/'] rest
  rw [separate, separate, scrub_append, scrub_serialize plain, start]
  exact splitOn_serialize (scrub rest) fun s member => (plain s member).slash_free

/-- Segments in normal form survive parsing behind any prefix; a dot segment
of the prefix can only take away from the prefix. -/
theorem parsePath_append {base : Text} (rooted : base.head? = some '/')
    {segments : List Text} (nonempty : segments ≠ [])
    (plain : ∀ segment ∈ segments, Plain segment) :
    parsePath (base ++ serialize segments) = (separate base).foldl advance [] ++ segments := by
  rw [parsePath, separate_append rooted plain]
  exact walk_append [] (separate base) nonempty plain

theorem splitOn_free (sep : Char) (text : Text) : ∀ part ∈ text.splitOn sep, sep ∉ part := by
  induction text with
  | nil => simp
  | cons c rest ih =>
    rw [List.splitOn_cons_eq_if_modifyHead]
    by_cases same : c = sep
    · subst same
      simpa using ih
    · cases split : rest.splitOn sep with
      | nil => exact absurd split (List.splitOn_ne_nil sep rest)
      | cons first later =>
        rw [split] at ih
        have differs := Ne.symm same
        simpa [same, differs] using ih

/-- What is not the separator stands in a part just where it stands in the text. -/
theorem mem_splitOn {sep c : Char} (apart : c ≠ sep) (text : Text) :
    (∃ part ∈ text.splitOn sep, c ∈ part) ↔ c ∈ text := by
  induction text with
  | nil => simp
  | cons d rest ih =>
    rw [List.splitOn_cons_eq_if_modifyHead]
    by_cases same : d = sep
    · subst same
      simp [apart, ih]
    · cases split : rest.splitOn sep with
      | nil => exact absurd split (List.splitOn_ne_nil sep rest)
      | cons first later =>
        rw [split] at ih
        simp [same, ← ih, or_assoc]

theorem separate_slash_free (input : Text) : ∀ segment ∈ separate input, '/' ∉ segment :=
  splitOn_free '/' _

theorem separate_serialize {segments : List Text} (nonempty : segments ≠ [])
    (plain : ∀ segment ∈ segments, Plain segment) : separate (serialize segments) = segments := by
  cases segments with
  | nil => exact absurd rfl nonempty
  | cons segment rest =>
    have tail : (serialize (segment :: rest)).tail = segment ++ serialize rest := by simp [serialize]
    have free := fun s member => (plain s (List.mem_cons_of_mem segment member)).slash_free
    rw [separate, scrub_serialize plain, if_pos (by simp [serialize]), tail,
      splitOn_serialize segment free, List.splitOn_eq_singleton (plain segment (by simp)).slash_free]
    rfl

theorem foldl_advance_plain (path : List Text) {segments : List Text}
    (plain : ∀ segment ∈ segments, Plain segment) :
    segments.foldl advance path = path ++ segments := by
  induction segments generalizing path with
  | nil => simp
  | cons segment rest ih =>
    rw [List.foldl_cons, advance_plain path (plain segment (by simp)),
      ih _ fun s member => plain s (List.mem_cons_of_mem segment member)]
    simp

/-! ### Queries -/

def percentDecode : Bytes → Bytes
  | [] => []
  | a :: b :: c :: rest =>
    if a = 0x25 then
      match hexByte (Char.ofNat b.toNat) (Char.ofNat c.toNat) with
      | some byte => UInt8.ofNat byte :: percentDecode rest
      | none => a :: percentDecode (b :: c :: rest)
    else a :: percentDecode (b :: c :: rest)
  | a :: rest => a :: percentDecode rest

def formDecode (input : Text) : Text :=
  Utf8.decode (percentDecode (Utf8.encode (input.map fun c => if c = '+' then ' ' else c)))

/-- `application/x-www-form-urlencoded` parsing, as `searchParams` does it. -/
def searchParams (query : Text) : List (Text × Text) :=
  ((query.splitOn '&').filter (· ≠ [])).map fun part =>
    (formDecode (part.takeWhile (· ≠ '=')), formDecode (part.dropWhile (· ≠ '=')).tail)

def formKeeps (c : Char) : Bool := c.isAlphanum || "*-._".toList.contains c

def formEncode (text : Text) : Text :=
  text.flatMap fun c => if c = ' ' then ['+'] else if formKeeps c then [c] else percentEncode c

/-- The serializer behind `searchParams.toString()`. -/
def formSerialize (params : List (Text × Text)) : Text :=
  "&".toList.intercalate (params.map fun (name, value) => formEncode name ++ "=".toList ++ formEncode value)

/-- `searchParams.set`: the first entry of that name is replaced, the others go. -/
def setParam (name value : Text) : List (Text × Text) → List (Text × Text)
  | [] => [(name, value)]
  | entry :: rest =>
    if entry.1 = name then (name, value) :: rest.filter (·.1 ≠ name)
    else entry :: setParam name value rest

def encodeWith (keeps : Char → Bool) (text : Text) : Text :=
  text.flatMap fun c => if keeps c then [c] else percentEncode c

/-- The complements of the special-query and fragment percent-encode sets. -/
def queryChar (c : Char) : Bool := ' ' < c && c ≤ '~' && !"\"#<>'".toList.contains c
def fragmentChar (c : Char) : Bool := ' ' < c && c ≤ '~' && !"\"<>`".toList.contains c

def encodeURIComponent (text : Text) : Text :=
  encodeWith (fun c => c.isAlphanum || "-_.!~*'()".toList.contains c) text

/-- A URL as a server sees it: no user, no fragment. -/
structure Url where
  protocol : Text := "https:".toList
  host : Text
  path : Path
  query : Option Text

namespace Url

def origin (url : Url) : Text := url.protocol ++ "//".toList ++ url.host

def pathname (url : Url) : Text := serialize url.path.segments

def search (url : Url) : Text :=
  match url.query with
  | none | some [] => []
  | some query => '?' :: query

def params (url : Url) : List (Text × Text) := searchParams (url.query.getD [])

def hasParam (url : Url) (name : Text) : Bool := url.params.any (·.1 = name)

def getParam (url : Url) (name : Text) : Option Text := (url.params.find? (·.1 = name)).map (·.2)

def toText (url : Url) : Text :=
  url.origin ++ url.pathname ++ match url.query with
    | none => []
    | some query => '?' :: query

def withParam (url : Url) (name value : Text) : Url :=
  { url with query := some (formSerialize (setParam name value url.params)) }

end Url

/-- `new URL(reference, origin).toString()` for a reference that starts with a
single slash. -/
def resolveReference (origin reference : Text) : Text :=
  let beforeHash := reference.takeWhile (· ≠ '#')
  let fragment := reference.dropWhile (· ≠ '#')
  let path := beforeHash.takeWhile (· ≠ '?')
  let query := beforeHash.dropWhile (· ≠ '?')
  let encode (keeps : Char → Bool) : Text → Text
    | [] => []
    | mark :: rest => mark :: encodeWith keeps rest
  origin ++ serialize (parsePath path) ++ encode queryChar query ++ encode fragmentChar fragment

end Dropway.Lib.Uri
