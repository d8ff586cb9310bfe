import Dropway.Dashboard.AuthzHost
import Dropway.Lib.FormQuery
import Dropway.Lib.Reference
import Dropway.Proofs.GatedSecrecy
import Dropway.Proofs.PathAgreement

/-! The way of a viewer through the exchange: from the page to the dashboard, to the
callback, and back to the page. The target is decoded at both ends on the content host,
so only a page whose address reads as itself is reached again. -/

namespace Dropway.Edge
open Lib Lib.Uri Proofs.GatedSecrecy

/-! ### The trip -/

/-- The exchange that a viewer is sent to. -/
def exchangeUrl (app : Url) (host nextPath : Text) : Url :=
  (app.withParam "host".toList host).withParam "next".toList (safeNextPath (some nextPath))

/-- What the dashboard takes from the exchange's URL to the callback. -/
def callbackFrom (asked : Url) (token : Text) : Url :=
  Dashboard.callbackUrl {} ((asked.getParam "host".toList).getD []) token
    (Dashboard.safeNextPath (asked.getParam "next".toList))

/-- The browser follows the redirect to the exchange, and with a token the one to the callback. -/
def signIn (s : Setting) (route : RouteValue) (url : Url) (token : Text) : Serving (Option Response) := do
  let exchange ← redirectToAuthz s url.host (url.pathname ++ url.search)
  match (exchange.headers.get "Location").bind s.rt.urlParse with
  | none => return none
  | some asked =>
    match s.rt.urlParse (callbackFrom asked token).toText with
    | none => return none
    | some reached => return some (← handleAuthzCallback s route reached)

/-- An address that is what the URL parser makes of the text it decodes to, a rooted
path without percent signs that ends in no white space. -/
def ReadsAsItself (address : Text) : Prop :=
  ∃ text, decodeURIComponent address = some text ∧ Rooted text ∧ '%' ∉ text ∧ Text.trim text = text ∧
    resolveReference [] text = address

/-! ### The two sanitisers -/

/-- A text that is not empty is truthy. -/
private theorem text_given {text : Text} (given : text ≠ []) :
    (some text).filter (fun text => decide (text ≠ [])) = some text := by
  rw [Option.filter_some, if_pos (decide_eq_true given)]

theorem safeNextPath_cases (next : Text) :
    safeNextPath (some next) = "/".toList ∨
      decodeURIComponent next = some (safeNextPath (some next)) ∧ Rooted (safeNextPath (some next)) := by
  unfold safeNextPath
  by_cases blank : next = []
  · subst blank
    exact .inl rfl
  rw [text_given blank]
  simp only
  cases decoded : decodeURIComponent next with
  | none => exact .inl rfl
  | some candidate =>
    simp only
    by_cases slash : candidate.head? ≠ some '/'
    · rw [if_pos slash]
      exact .inl rfl
    rw [if_neg slash]
    by_cases double : Text.startsWith candidate "//".toList = true
    · rw [if_pos double]
      exact .inl rfl
    rw [if_neg double]
    by_cases backslash : '\\' ∈ candidate
    · rw [if_pos backslash]
      exact .inl rfl
    rw [if_neg backslash]
    by_cases control : (candidate.any fun c => c.toNat ≤ 0x20 || c.toNat = 0x7F) = true
    · rw [if_pos control]
      exact .inl rfl
    rw [if_neg control]
    refine .inr ⟨rfl, not_not.mp slash, double, backslash, fun c mem => ?_⟩
    have quiet := List.any_eq_false.mp (Bool.not_eq_true _ ▸ control) c mem
    simp only [Bool.or_eq_true, decide_eq_true_eq, not_or] at quiet
    exact ⟨by omega, quiet.2⟩

/-- A rooted path that decodes to itself is kept. -/
theorem safeNextPath_rooted {next text : Text} (some' : next ≠ []) (decoded : decodeURIComponent next = some text)
    (rooted : Rooted text) : safeNextPath (some next) = text := by
  unfold safeNextPath
  have quiet : ¬ (text.any fun c => c.toNat ≤ 0x20 || c.toNat = 0x7F) = true := by
    intro control
    obtain ⟨c, mem, bad⟩ := List.any_eq_true.mp control
    have visible := rooted.visible c mem
    simp only [Bool.or_eq_true, decide_eq_true_eq] at bad
    omega
  rw [text_given some']
  simp only [decoded]
  rw [if_neg (not_not.mpr rooted.slash), if_neg rooted.single, if_neg rooted.forward, if_neg quiet]

theorem rooted_slash : Rooted "/".toList := by
  refine ⟨rfl, by decide, by decide, fun c mem => ?_⟩
  rw [List.mem_singleton.mp mem]
  decide

theorem safeNextPath_safe (next : Option Text) : Rooted (safeNextPath next) := by
  cases next with
  | none => exact rooted_slash
  | some next =>
    rcases safeNextPath_cases next with root | ⟨-, rooted⟩
    · rw [root]
      exact rooted_slash
    · exact rooted

theorem dashboard_cases (raw : Text) :
    Dashboard.safeNextPath (some raw) = "/".toList ∨ Dashboard.safeNextPath (some raw) = Text.trim raw := by
  unfold Dashboard.safeNextPath
  by_cases blank : raw = []
  · subst blank
    exact .inl rfl
  rw [text_given blank]
  simp only
  split
  · exact .inl rfl
  split
  · exact .inl rfl
  split
  · exact .inl rfl
  · exact .inr rfl

theorem dashboard_rooted {text : Text} (rooted : Rooted text) (trimmed : Text.trim text = text) :
    Dashboard.safeNextPath (some text) = text := by
  unfold Dashboard.safeNextPath
  have some' : text ≠ [] := by
    rintro rfl
    cases rooted.slash
  have backslash : Text.startsWith text "/\\".toList = false := by
    refine Bool.eq_false_iff.mpr fun starts => rooted.forward ?_
    exact (List.isPrefixOf_iff_prefix.mp starts).subset (by decide)
  have quiet : Dashboard.hasControlChar text = false := by
    refine Bool.eq_false_iff.mpr fun control => ?_
    obtain ⟨c, mem, bad⟩ := List.any_eq_true.mp control
    have visible := rooted.visible c mem
    simp only [Bool.or_eq_true, decide_eq_true_eq] at bad
    omega
  have single : Text.startsWith text "//".toList = false := Bool.eq_false_iff.mpr rooted.single
  rw [text_given some']
  simp only [trimmed, rooted.slash, single, backslash, quiet]
  rfl

/-! ### Lengths along the trip -/

private theorem fromHex_percent {high : UInt8} {value : UInt8} (read : Serve.fromHex high = some value) : high ≠ 0x25 := by
  rintro rfl
  rw [show Serve.fromHex 0x25 = none from by decide] at read
  cases read

private theorem decodeOnce_length {bytes read : Bytes} (decoded : Serve.decodeOnce bytes = some read) :
    read.length + 2 * bytes.count 0x25 = bytes.length := by
  induction bytes using Serve.decodeOnce.induct generalizing read with
  | case1 =>
    cases decoded
    rfl
  | case2 c rest literal ih =>
    rw [Serve.decodeOnce_literal literal] at decoded
    obtain ⟨tail, found, rfl⟩ := Option.map_eq_some_iff.mp decoded
    have length := ih found
    rw [List.count_cons_of_ne literal, List.length_cons, List.length_cons]
    omega
  | case3 c escape high low rest ih =>
    have mark : c = 0x25 := not_not.mp escape
    subst mark
    rw [Serve.decodeOnce_escape] at decoded
    obtain ⟨one, highRead, decoded⟩ := Option.bind_eq_some_iff.mp decoded
    obtain ⟨two, lowRead, decoded⟩ := Option.bind_eq_some_iff.mp decoded
    obtain ⟨tail, found, rfl⟩ := Option.map_eq_some_iff.mp decoded
    have length := ih found
    rw [List.count_cons_self, List.count_cons_of_ne (fromHex_percent highRead),
      List.count_cons_of_ne (fromHex_percent lowRead)]
    simp only [List.length_cons]
    omega
  | case4 c rest escape short =>
    have mark : c = 0x25 := not_not.mp escape
    subst mark
    rcases rest with _ | ⟨high, _ | ⟨low, rest⟩⟩
    · cases decoded
    · cases decoded
    · exact absurd rfl (short high low rest)

private theorem count_percent (text : Text) : (Utf8.encode text).count 0x25 = text.count '%' := by
  induction text with
  | nil => rfl
  | cons c text ih =>
    rw [Utf8.encode_cons, List.count_append, ih]
    by_cases percent : c = '%'
    · subst percent
      rw [List.count_cons_self, Nat.add_comm]
      rfl
    · have free : (0x25 : UInt8) ∉ String.utf8EncodeChar c := fun mem =>
        percent ((Utf8.byteOf_mem_encodeChar (show '%'.toNat < 0x80 by decide)).mp mem)
      rw [List.count_eq_zero_of_not_mem free, List.count_cons_of_ne percent, Nat.zero_add]

/-- Every escape that is read takes two bytes away. -/
private theorem decode_size {raw decoded : Text} (spelled : decodeURIComponent raw = some decoded) :
    (Utf8.encode decoded).length + 2 * raw.count '%' = (Utf8.encode raw).length := by
  have size := decodeOnce_length (Serve.decodeOnce_eq spelled)
  rwa [count_percent] at size

private theorem trim_parts (text : Text) : ∃ front back, text = front ++ Text.trim text ++ back := by
  obtain ⟨front, first⟩ := List.dropWhile_suffix (l := text) Text.isSpace
  obtain ⟨back, last⟩ := List.dropWhile_suffix (l := (text.dropWhile Text.isSpace).reverse) Text.isSpace
  have end_ := congrArg List.reverse last
  rw [List.reverse_append, List.reverse_reverse] at end_
  refine ⟨front, back.reverse, ?_⟩
  rw [List.append_assoc, Text.trim, end_, first]

private theorem encode_length_eq_zero {text : Text} (zero : (Utf8.encode text).length = 0) : text = [] :=
  Utf8.encode_eq_nil.mp (List.length_eq_zero_iff.mp zero)

/-- White space at the ends is all that is lost. -/
private theorem trim_size (text : Text) : (Utf8.encode (Text.trim text)).length ≤ (Utf8.encode text).length ∧
    ((Utf8.encode text).length ≤ (Utf8.encode (Text.trim text)).length → Text.trim text = text) := by
  obtain ⟨front, back, parts⟩ := trim_parts text
  have size := congrArg (fun text => (Utf8.encode text).length) parts
  simp only [Utf8.encode_append, List.length_append] at size
  refine ⟨by omega, fun whole => ?_⟩
  have frontNone := encode_length_eq_zero (show (Utf8.encode front).length = 0 by omega)
  have backNone := encode_length_eq_zero (show (Utf8.encode back).length = 0 by omega)
  rw [frontNone, backNone, List.nil_append, List.append_nil] at parts
  exact parts.symm

/-! ### What comes back -/

/-- The target that the callback is left with. -/
def targetBack (address : Text) : Text :=
  safeNextPath (some (Dashboard.safeNextPath (some (safeNextPath (some address)))))

private theorem written_root : resolveReference [] "/".toList = "/".toList := by decide

private theorem root_reads : ReadsAsItself "/".toList :=
  ⟨"/".toList, by decide, rooted_slash, by decide, by decide, written_root⟩

private theorem root_dashboard : Dashboard.safeNextPath (some "/".toList) = "/".toList := by decide

private theorem root_safe : safeNextPath (some "/".toList) = "/".toList := by decide

/-- The target is the address again exactly if the address reads as itself. -/
theorem targetBack_iff {address : Text} (slash : address.head? = some '/') :
    resolveReference [] (targetBack address) = address ↔ ReadsAsItself address := by
  have given : address ≠ [] := by
    rintro rfl
    cases slash
  constructor
  · intro back
    by_cases root : address = "/".toList
    · rw [root]
      exact root_reads
    -- the address is not the root, so no sanitiser gave up
    unfold targetBack at back
    rcases safeNextPath_cases address with gaveUp | ⟨sentRead, sentRooted⟩
    · rw [gaveUp, root_dashboard, root_safe, written_root] at back
      exact absurd back.symm root
    generalize safeNextPath (some address) = sent at back sentRead sentRooted
    rcases dashboard_cases sent with gaveUp | passed
    · rw [gaveUp, root_safe, written_root] at back
      exact absurd back.symm root
    rw [passed] at back
    rcases safeNextPath_cases (Text.trim sent) with gaveUp | ⟨backRead, backRooted⟩
    · rw [gaveUp, written_root] at back
      exact absurd back.symm root
    generalize safeNextPath (some (Text.trim sent)) = target at back backRead backRooted
    -- lengths only fall along the way, and the last is not below the first
    have first := decode_size sentRead
    have second := trim_size sent
    have third := decode_size backRead
    have fourth := readSize_resolveReference backRooted.slash
    rw [back, readSize] at fourth
    have trimmed : Text.trim sent = sent := second.2 (by omega)
    have plain : (Text.trim sent).count '%' = 0 := by omega
    have literal : '%' ∉ sent := by
      rw [trimmed] at plain
      exact List.count_eq_zero.mp plain
    rw [trimmed, decodeURIComponent_literal literal] at backRead
    obtain rfl := Option.some.inj backRead
    exact ⟨sent, sentRead, sentRooted, literal, trimmed, back⟩
  · rintro ⟨text, decoded, rooted, literal, trimmed, written⟩
    have some' : text ≠ [] := by
      rintro rfl
      cases rooted.slash
    unfold targetBack
    rw [safeNextPath_rooted given decoded rooted, dashboard_rooted rooted trimmed,
      safeNextPath_rooted some' (decodeURIComponent_literal literal) rooted, written]

/-! ### The responses -/

theorem get_set (headers : Headers) (name : String) (value : Text) : (headers.set name value).get name = some value := by
  have gone : (headers.filter (·.1 ≠ name)).find? (·.1 = name) = none := by
    refine List.find?_eq_none.mpr fun header mem => ?_
    simpa using (List.mem_filter.mp mem).2
  rw [Headers.get, Headers.set, Headers.delete, List.find?_append, gone, Option.none_or,
    List.find?_cons_of_pos (by simp), Option.map_some]

/-- The token verifies for the route on that host. -/
def Verifies (s : Setting) (route : RouteValue) (world : World) (host token : Text) : Prop :=
  ((verifyEdgeToken s.jose s.fetchImpl (world.jwksCache (gatedConfig s.env).jwksUrl)
    (tokenParams s route host token)).1).isSome = true

private theorem verifyTokenSafely_run (s : Setting) (route : RouteValue) (host token : Text) (world : World) :
    ∃ after, (verifyTokenSafely s route host token).run world =
      ((verifyEdgeToken s.jose s.fetchImpl (world.jwksCache (gatedConfig s.env).jwksUrl)
        (tokenParams s route host token)).1, after) := by
  simp only [verifyTokenSafely, tokenParams, StateT.run_bind, StateT.run_get, pure_bind]
  rcases verifyEdgeToken s.jose s.fetchImpl _ _ with ⟨claims, kept⟩
  by_cases fetched : kept.isSome
  · simp only [fetched, if_true]
    exact ⟨_, rfl⟩
  · simp only [fetched]
    exact ⟨_, rfl⟩

/-- A callback whose token verifies goes to its target. -/
theorem callback_location {s : Setting} {route : RouteValue} {world : World} {reached : Url} {token : Text}
    (sent : reached.getParam "token".toList = some token) (verified : Verifies s route world reached.host token) :
    ∃ answer, (run (handleAuthzCallback s route reached) world).1 = .ok answer ∧
      answer.headers.get "Location" =
        some (resolveReference ("https://".toList ++ reached.host) (safeNextPath (reached.getParam "next".toList))) := by
  obtain ⟨claims, found⟩ := Option.isSome_iff_exists.mp verified
  have some' : token ≠ [] := by
    rintro rfl
    rw [verifyEdgeToken, if_pos (.inl rfl)] at found
    cases found
  obtain ⟨after, checked⟩ := verifyTokenSafely_run s route reached.host token world
  rw [found] at checked
  unfold handleAuthzCallback
  simp only [sent, Option.getD_some, some', if_false]
  rw [run_bind_eq, run_lift, checked]
  exact ⟨_, rfl, get_set _ _ _⟩

/-- The URLs on the way are read as what they were written from. -/
structure Followed (s : Setting) (app url : Url) (token : Text) : Prop where
  configured : s.rt.urlParse (gatedConfig s.env).appAuthzUrl = some app
  exchange : s.rt.urlParse (exchangeUrl app url.host (url.pathname ++ url.search)).toText =
    some (exchangeUrl app url.host (url.pathname ++ url.search))
  callback : s.rt.urlParse (callbackFrom (exchangeUrl app url.host (url.pathname ++ url.search)) token).toText =
    some (callbackFrom (exchangeUrl app url.host (url.pathname ++ url.search)) token)

private theorem callbackFrom_exchange (app : Url) (host nextPath token : Text) :
    callbackFrom (exchangeUrl app host nextPath) token =
      Dashboard.callbackUrl {} host token (Dashboard.safeNextPath (some (safeNextPath (some nextPath)))) := by
  have hostKept : (exchangeUrl app host nextPath).getParam "host".toList = some host := by
    rw [exchangeUrl, Url.getParam_withParam_other _ (by decide), Url.getParam_withParam]
  have nextKept : (exchangeUrl app host nextPath).getParam "next".toList = some (safeNextPath (some nextPath)) := by
    rw [exchangeUrl, Url.getParam_withParam]
  rw [callbackFrom, hostKept, nextKept, Option.getD_some]

/-- The callback's URL says where it is, with what, and where to. -/
private theorem callbackUrl_parts (host token next : Text) :
    (Dashboard.callbackUrl {} host token next).host = host ∧
      (Dashboard.callbackUrl {} host token next).getParam "token".toList = some token ∧
      (Dashboard.callbackUrl {} host token next).getParam "next".toList = some next := by
  refine ⟨?_, ?_, ?_⟩
  · exact List.append_nil host
  · rw [Dashboard.callbackUrl, Url.getParam_withParam_other _ (by decide), Url.getParam_withParam]
  · rw [Dashboard.callbackUrl, Url.getParam_withParam]

private theorem signIn_run {s : Setting} (route : RouteValue) {app url : Url} {token : Text}
    (followed : Followed s app url token) (world : World) :
    run (signIn s route url token) world = run (do
      let answer ← handleAuthzCallback s route (callbackFrom (exchangeUrl app url.host (url.pathname ++ url.search)) token)
      return some answer) world := by
  obtain ⟨exchange, away, location⟩ : ∃ exchange, redirectToAuthz s url.host (url.pathname ++ url.search) = .ok exchange ∧
      exchange.headers.get "Location" = some (exchangeUrl app url.host (url.pathname ++ url.search)).toText := by
    unfold redirectToAuthz
    rw [followed.configured]
    exact ⟨_, rfl, get_set _ _ _⟩
  have asked : (exchange.headers.get "Location").bind s.rt.urlParse =
      some (exchangeUrl app url.host (url.pathname ++ url.search)) := by
    rw [location, Option.bind_some, followed.exchange]
  unfold signIn
  rw [away, run_bind_eq]
  change run (match (exchange.headers.get "Location").bind s.rt.urlParse with
    | none => _
    | some asked => _) world = _
  rw [asked]
  simp only [followed.callback]

private theorem sign_in_back_iff {s : Setting} {route : RouteValue} {app url : Url} {token : Text} {world : World}
    (followed : Followed s app url token) (verified : Verifies s route world url.host token) :
    (∃ answer, (run (signIn s route url token) world).1 = .ok (some answer) ∧
        answer.headers.get "Location" = some ("https://".toList ++ url.host ++ (url.pathname ++ url.search))) ↔
      ReadsAsItself (url.pathname ++ url.search) := by
  obtain ⟨host, sent, next⟩ := callbackUrl_parts url.host token
    (Dashboard.safeNextPath (some (safeNextPath (some (url.pathname ++ url.search)))))
  have start := signIn_run route followed world
  rw [callbackFrom_exchange] at start
  generalize Dashboard.callbackUrl {} url.host token _ = reached at host sent next start
  rw [← host] at verified
  obtain ⟨answer, answered, location⟩ := callback_location sent verified
  rw [next, host, resolveReference_origin] at location
  change _ = some (_ ++ resolveReference [] (targetBack (url.pathname ++ url.search))) at location
  have ran : (run (signIn s route url token) world).1 = .ok (some answer) := by
    rw [start, run_bind_eq]
    rcases whole : run (handleAuthzCallback s route reached) world with ⟨result, after⟩
    rw [whole] at answered
    cases answered
    rfl
  have slash : (url.pathname ++ url.search).head? = some '/' := by
    obtain ⟨segment, segments, path⟩ := List.exists_cons_of_ne_nil url.path.nonempty
    rw [Url.pathname, path]
    rfl
  rw [← targetBack_iff slash]
  constructor
  · rintro ⟨other, otherRan, back⟩
    rw [ran] at otherRan
    cases otherRan
    rw [location] at back
    exact List.append_cancel_left (Option.some.inj back)
  · intro back
    exact ⟨answer, ran, by rw [location, back]⟩

private theorem callback_stays {s : Setting} {route : RouteValue} {world : World} {reached : Url} {given : Text}
    (sent : reached.getParam "token".toList = some given) (verified : Verifies s route world reached.host given) :
    ∃ answer rest, (run (handleAuthzCallback s route reached) world).1 = .ok answer ∧
      answer.headers.get "Location" = some ("https://".toList ++ reached.host ++ '/' :: rest) ∧
      ∀ elsewhere, Uri.resolve elsewhere ("https://".toList ++ reached.host)
        (safeNextPath (reached.getParam "next".toList)) = some ("https://".toList ++ reached.host ++ '/' :: rest) := by
  obtain ⟨answer, answered, location⟩ := callback_location sent verified
  obtain ⟨rest, path⟩ := resolveReference_path ("https://".toList ++ reached.host)
    (safeNextPath (reached.getParam "next".toList))
  rw [path] at location
  refine ⟨answer, rest, answered, location, fun elsewhere => ?_⟩
  rw [(safeNextPath_safe _).resolves, path]

/-- A viewer who signs in comes back to the page exactly if its address reads as itself;
whatever the target is, the callback stays on its host. -/
theorem sign_in_returns_iff {s : Setting} {route : RouteValue} {app url : Url} {token : Text} {world : World}
    (followed : Followed s app url token) (verified : Verifies s route world url.host token) :
    ((∃ answer, (run (signIn s route url token) world).1 = .ok (some answer) ∧
        answer.headers.get "Location" = some ("https://".toList ++ url.host ++ (url.pathname ++ url.search))) ↔
      ReadsAsItself (url.pathname ++ url.search)) ∧
    ∀ (reached : Url) (given : Text), reached.getParam "token".toList = some given →
      Verifies s route world reached.host given →
      ∃ answer rest, (run (handleAuthzCallback s route reached) world).1 = .ok answer ∧
        answer.headers.get "Location" = some ("https://".toList ++ reached.host ++ '/' :: rest) ∧
        ∀ elsewhere, Uri.resolve elsewhere ("https://".toList ++ reached.host)
          (safeNextPath (reached.getParam "next".toList)) = some ("https://".toList ++ reached.host ++ '/' :: rest) :=
  ⟨sign_in_back_iff followed verified, fun _ _ sent verified => callback_stays sent verified⟩

/-! ### The sanitiser of the Go server -/

/-- A target is one slash and what follows it, whatever the bytes. -/
theorem go_safe (next : Bytes) : ∃ rest, Serve.safeNextPath next = 0x2F :: rest ∧ rest.head? ≠ some 0x2F ∧
    0x5C ∉ rest ∧ rest.any Serve.isControl = false := by
  have root : ∃ rest, ([0x2F] : Bytes) = 0x2F :: rest ∧ rest.head? ≠ some 0x2F ∧ 0x5C ∉ rest ∧
      rest.any Serve.isControl = false := ⟨[], rfl, by decide, by decide, rfl⟩
  unfold Serve.safeNextPath
  by_cases blank : next = []
  · rw [if_pos blank]
    exact root
  rw [if_neg blank]
  cases Serve.decodeOnce next with
  | none => exact root
  | some candidate =>
    simp only
    by_cases slash : candidate.head? ≠ some 0x2F
    · rw [if_pos slash]
      exact root
    rw [if_neg slash]
    by_cases double : ([0x2F, 0x2F] : Bytes).isPrefixOf candidate = true
    · rw [if_pos double]
      exact root
    rw [if_neg double]
    by_cases backslash : candidate.contains 0x5C = true
    · rw [if_pos backslash]
      exact root
    rw [if_neg backslash]
    by_cases control : candidate.any Serve.isControl = true
    · rw [if_pos control]
      exact root
    rw [if_neg control]
    cases candidate with
    | nil => exact absurd (not_not.mp slash) (by decide)
    | cons first rest =>
      have same : first = 0x2F := Option.some.inj (not_not.mp slash)
      subst same
      refine ⟨rest, rfl, fun head => double ?_, fun mem => backslash ?_, ?_⟩
      · cases rest with
        | nil => cases head
        | cons second rest =>
          cases head
          rfl
      · exact List.contains_iff_mem.mpr (List.mem_cons_of_mem _ mem)
      · rw [List.any_cons, Bool.or_eq_true, not_or] at control
        exact Bool.eq_false_iff.mpr control.2

/-- Where the escapes spell text, the two sanitisers agree. -/
theorem go_agrees {next decoded : Text} (spelled : decodeURIComponent next = some decoded) :
    Serve.safeNextPath (Utf8.encode next) = Utf8.encode (safeNextPath (some next)) := by
  unfold Serve.safeNextPath safeNextPath
  by_cases blank : next = []
  · subst blank
    rfl
  have slash : (Utf8.encode decoded).head? = some 0x2F ↔ decoded.head? = some '/' :=
    Utf8.head_encode (a := '/') (by decide)
  have backslash : (Utf8.encode decoded).contains 0x5C = true ↔ '\\' ∈ decoded :=
    List.contains_iff_mem.trans (Utf8.byteOf_mem_encode (a := '\\') (by decide))
  have control : (Utf8.encode decoded).any Serve.isControl = decoded.any fun c => c.toNat ≤ 0x20 || c.toNat = 0x7F := by
    have ascii : ∀ b, Serve.isControl b = true → b.toNat < 0x80 := by
      intro b passes
      simp only [Serve.isControl, Bool.or_eq_true, decide_eq_true_eq, UInt8.le_iff_toNat_le] at passes
      rcases passes with low | rfl
      · exact low.trans_lt (by decide)
      · decide
    rw [Utf8.any_encode ascii]
    congr 1
    funext c
    by_cases small : c.toNat < 0x80
    · have value := Utf8.byteOf_toNat small
      have low : Utf8.byteOf c ≤ 0x20 ↔ c.toNat ≤ 0x20 := by
        rw [UInt8.le_iff_toNat_le, value]
        rfl
      have delete : Utf8.byteOf c = 0x7F ↔ c.toNat = 0x7F := by
        rw [← UInt8.toNat_inj, value]
        rfl
      simp only [Serve.isControl, decide_eq_true small, Bool.true_and, low, delete]
    · have above : ¬ c.toNat ≤ 0x20 := by omega
      have other : c.toNat ≠ 0x7F := by omega
      simp only [small, above, other, decide_false, Bool.false_and, Bool.or_self]
  have double (slashed : decoded.head? = some '/') :
      ([0x2F, 0x2F] : Bytes).isPrefixOf (Utf8.encode decoded) = true ↔ Text.startsWith decoded "//".toList = true := by
    obtain ⟨rest, rfl⟩ : ∃ rest, decoded = '/' :: rest := by
      cases decoded with
      | nil => cases slashed
      | cons c rest =>
        cases slashed
        exact ⟨rest, rfl⟩
    have second : (Utf8.encode rest).head? = some 0x2F ↔ rest.head? = some '/' :=
      Utf8.head_encode (a := '/') (by decide)
    have bytes : Utf8.encode ('/' :: rest) = 0x2F :: Utf8.encode rest := Utf8.encode_cons '/' rest
    rw [bytes]
    cases rest with
    | nil => exact ⟨(fun starts => absurd starts (by decide)), (fun starts => absurd starts (by decide))⟩
    | cons c rest =>
      obtain ⟨b, more, same⟩ := List.exists_cons_of_ne_nil (Utf8.encodeChar_ne_nil c)
      rw [Utf8.encode_cons, same, List.cons_append, List.head?_cons, List.head?_cons, Option.some.injEq,
        Option.some.injEq] at second
      rw [Utf8.encode_cons, same, Text.startsWith, List.isPrefixOf_iff_prefix, List.isPrefixOf_iff_prefix]
      change _ <+: 0x2F :: b :: _ ↔ ['/', '/'] <+: '/' :: c :: rest
      rw [List.cons_prefix_cons, List.cons_prefix_cons, List.cons_prefix_cons, List.cons_prefix_cons]
      constructor
      · rintro ⟨-, slash, -⟩
        exact ⟨rfl, (second.mp slash.symm).symm, List.nil_prefix⟩
      · rintro ⟨-, slash, -⟩
        exact ⟨rfl, (second.mpr slash.symm).symm, List.nil_prefix⟩
  have bytes : Utf8.encode next ≠ [] := fun none => blank (Utf8.encode_eq_nil.mp none)
  rw [if_neg bytes, text_given blank, Serve.decodeOnce_eq spelled]
  simp only [spelled, ne_eq, slash, backslash, control]
  by_cases slashed : decoded.head? = some '/'
  · rw [if_neg (not_not.mpr slashed), if_neg (not_not.mpr slashed)]
    simp only [double slashed]
    split
    · rfl
    split
    · rfl
    split <;> rfl
  · rw [if_pos slashed, if_pos slashed]
    rfl


/-! ### A viewer -/

def viewerApp : Url :=
  { host := "app.dropway.dev".toList, path := ⟨["authz".toList], by decide, by decide⟩, query := none }

def viewerToken : Text := "t".toList

/-- A browser that knows the three URLs of the viewer's trip, and a key that verifies the
viewer's token. -/
def viewerSetting (url : Url) : Setting :=
  let exchange := exchangeUrl viewerApp url.host (url.pathname ++ url.search)
  { rt := { jsonParse := fun _ => none, dateParse := fun _ => none, localeLe := fun _ _ => true
            urlParse := fun text => [viewerApp, exchange, callbackFrom exchange viewerToken].find? (·.toText = text) }
    jose := { importJWK := fun _ => true
              jwtVerify := fun _ _ _ => some [("site_id", .str (String.ofList membersId)), ("mode", .str "org_only"),
                ("sub", .str "viewer"), ("iat", .num 0)] }
    pages := default
    env :=
      { routes := fun _ => .ok none, bucket := fun _ => none, edgeJwksUrl := none, appAuthzUrl := none,
        rateLimiter := none, limits := none, revoked := none, rateLimitMax := none, rateLimitWindowSeconds := none,
        attributionBanner := none }
    cache := true, fetchImpl := fun _ => none, now := 0, gateNow := 0 }

def viewerWorld : World :=
  { limits := fun _ => none, cache := fun _ => none
    jwksCache := fun _ => some { keys := [("kid".toList, .null)], expiresAt := 1 } }

private theorem viewer_verifies (url : Url) (host : url.host = "acme.example.com".toList) :
    Verifies (viewerSetting url) membersRoute viewerWorld url.host viewerToken := by
  rw [host]
  rfl

/-- A page whose address reads as itself. -/
def plainPage : Url :=
  { host := "acme.example.com".toList, path := ⟨["caf%C3%A9".toList, "a+b.html".toList], by decide, by decide⟩
    query := some "x=1+2&y=/".toList }

/-- Three URLs that are written apart are told apart. -/
private theorem find_written {one two three : Url} (apart : one.toText ≠ two.toText) (apart' : one.toText ≠ three.toText)
    (apart'' : two.toText ≠ three.toText) :
    [one, two, three].find? (·.toText = one.toText) = some one ∧
      [one, two, three].find? (·.toText = two.toText) = some two ∧
      [one, two, three].find? (·.toText = three.toText) = some three := by
  simp [apart, apart', apart'']

private theorem viewer_followed {url : Url}
    (apart : viewerApp.toText ≠ (exchangeUrl viewerApp url.host (url.pathname ++ url.search)).toText)
    (apart' : viewerApp.toText ≠
      (callbackFrom (exchangeUrl viewerApp url.host (url.pathname ++ url.search)) viewerToken).toText)
    (apart'' : (exchangeUrl viewerApp url.host (url.pathname ++ url.search)).toText ≠
      (callbackFrom (exchangeUrl viewerApp url.host (url.pathname ++ url.search)) viewerToken).toText) :
    Followed (viewerSetting url) viewerApp url viewerToken := by
  have configured : (gatedConfig (viewerSetting url).env).appAuthzUrl = viewerApp.toText := by
    change (gatedConfig (viewerSetting plainPage).env).appAuthzUrl = _
    decide +kernel
  have parse (text : Text) : (viewerSetting url).rt.urlParse text =
      [viewerApp, exchangeUrl viewerApp url.host (url.pathname ++ url.search),
        callbackFrom (exchangeUrl viewerApp url.host (url.pathname ++ url.search)) viewerToken].find?
        (·.toText = text) := rfl
  obtain ⟨first, second, third⟩ := find_written apart apart' apart''
  refine ⟨?_, ?_, ?_⟩
  · rw [parse, configured, first]
  · rw [parse, second]
  · rw [parse, third]

theorem sign_in_returns_iff_plain :
    ((∃ answer, (run (signIn (viewerSetting plainPage) membersRoute plainPage viewerToken) viewerWorld).1 =
          .ok (some answer) ∧
        answer.headers.get "Location" =
          some ("https://".toList ++ plainPage.host ++ (plainPage.pathname ++ plainPage.search))) ↔
      ReadsAsItself (plainPage.pathname ++ plainPage.search)) ∧
    ∀ (reached : Url) (given : Text), reached.getParam "token".toList = some given →
      Verifies (viewerSetting plainPage) membersRoute viewerWorld reached.host given →
      ∃ answer rest,
        (run (handleAuthzCallback (viewerSetting plainPage) membersRoute reached) viewerWorld).1 = .ok answer ∧
        answer.headers.get "Location" = some ("https://".toList ++ reached.host ++ '/' :: rest) ∧
        ∀ elsewhere, Uri.resolve elsewhere ("https://".toList ++ reached.host)
          (safeNextPath (reached.getParam "next".toList)) = some ("https://".toList ++ reached.host ++ '/' :: rest) :=
  sign_in_returns_iff (viewer_followed (by decide +kernel) (by decide +kernel) (by decide +kernel))
    (viewer_verifies plainPage rfl)

/-- The page of a file with a space in its name. -/
def spacedPage : Url :=
  { host := "acme.example.com".toList, path := ⟨["my%20file.html".toList], by decide, by decide⟩, query := none }

/-- The viewer of a file with a space in its name is sent to the root. -/
theorem spaced_page_lost : ¬ ∀ (s : Setting) (route : RouteValue) (app url : Url) (token : Text) (world : World),
    Followed s app url token → Verifies s route world url.host token →
    ∃ answer, (run (signIn s route url token) world).1 = .ok (some answer) ∧
      answer.headers.get "Location" = some ("https://".toList ++ url.host ++ (url.pathname ++ url.search)) := by
  intro returns
  have followed : Followed (viewerSetting spacedPage) viewerApp spacedPage viewerToken :=
    viewer_followed (by decide +kernel) (by decide +kernel) (by decide +kernel)
  have verified := viewer_verifies spacedPage rfl
  have back := returns _ membersRoute _ _ _ viewerWorld followed verified
  obtain ⟨text, decoded, rooted, -⟩ := (sign_in_back_iff followed verified).mp back
  have read : decodeURIComponent (spacedPage.pathname ++ spacedPage.search) = some "/my file.html".toList := by
    decide +kernel
  rw [read] at decoded
  obtain rfl := Option.some.inj decoded
  exact absurd (rooted.visible ' ' (by decide)).1 (by decide)

end Dropway.Edge
