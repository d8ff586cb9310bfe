import Dropway.Api.Revoke
import Dropway.Edge.Authz
import Dropway.Lib.JsonNumber
import Dropway.Lib.Outcome
import Dropway.Proofs.DenylistTightens
import Dropway.Proofs.GatedSecrecy
import Dropway.Serve.EdgeVerify

/-! Whether a revocation reaches the tokens minted before it. The token and the entry
keep whole seconds, and both readers compare them strictly, so a token of the second
in which the revocation started passes. -/

namespace Dropway.Proofs.HardRevocation
open Lib Lib.Calls
open Projection
open Edgetoken (Claims MintParams)
open Api (RevokeRequest Revoker)
open GatedSecrecy (Admitted verifyEdgeToken_bound)

/-! ### Runs -/

/-- What is still to be done: time may pass, a token be minted, a subject be revoked. -/
inductive Event (K : Type) where
  | passing (later : K)
  | minting (p : MintParams K) (jti : Option Text)
  | asking (asker : Revoker) (request : RevokeRequest)

structure Minted (K : Type) where
  claims : Claims
  mintedAt : K

/-- A revocation that has started keeps the tokens minted until then. -/
inductive Doing (K : Type) where
  | waiting (event : Event K)
  | revoking (revoke : RevokeCall) (earlier : List (Minted K))
  | finished

structure World (K : Type) where
  now : K
  minted : List (Minted K)
  denylist : Denylist

variable {K : Type} [Ring K] [LinearOrder K] [FloorRing K]

/-- The clock does not go back. -/
def system : Program Answer (Doing K) (World K)
  | _, .waiting (.passing later), world => some (.finished, { world with now := max world.now later })
  | _, .waiting (.minting p jti), world =>
    match Edgetoken.mint p jti world.now with
    | .error _ => some (.finished, world)
    | .ok claims => some (.finished, { world with minted := ⟨claims, world.now⟩ :: world.minted })
  | _, .waiting (.asking asker request), world =>
    match request.revocation asker ⌊world.now⌋ with
    | none => some (.finished, world)
    | some call => some (.revoking ⟨call, .called⟩ world.minted, world)
  | answer, .revoking revoke earlier, world =>
    (CloudflareKV.revoke answer revoke world.denylist).map fun after =>
      (.revoking after.1 earlier, { world with denylist := after.2 })
  | _, .finished, _ => none

variable {κ : Type} [DecidableEq κ]

abbrev Running (κ K : Type) := State κ (Doing K) (World K)

def outset (events : κ → Event K) (now : K) : Running κ K :=
  ⟨⟨now, [], fun _ => none⟩, fun call => .waiting (events call)⟩

/-! ### Readers -/

/-- Dates that every JSON reader keeps as they are. -/
def Exact (second : Int) : Prop := second.natAbs < 2 ^ 53

/-- The Worker reads the entry at a key, or fails to, and its libraries do what they are
for: the payload of a token has the members that were signed. An expiry may be rounded. -/
structure WorkerReads (token : Text) (claims : Claims) (s : Edge.Setting) (denylist : Denylist) (key : Text) : Prop where
  parses : ∀ text, s.rt.jsonParse text = (JsonText.parse text).map Doc.value
  verifies : ∀ keys options payload, (∀ second ∈ claims.issuedAt, Exact second) →
    s.jose.jwtVerify token keys options = some payload → ∀ name value, name ≠ "exp" →
      Json.member claims.payload name = some value → Json.member payload name = some value
  reads : ∀ raw, Edge.revokedKV s.env key = .ok raw → raw = (denylist key).map entryText

/-- What the KV API may answer for an entry. -/
inductive Answers : Option Int → KVResponse → Prop
  | unreachable {entry : Option Int} : Answers entry .unreachable
  | refused {entry : Option Int} {status : Nat} {body : Bytes} (present : status ≠ 404)
      (refuses : status < 200 ∨ 300 ≤ status) : Answers entry (.answered status body)
  | missing {body : Bytes} : Answers none (.answered 404 body)
  | found {minIAT : Int} {status : Nat} (serves : 200 ≤ status ∧ status < 300) :
      Answers (some minIAT) (.answered status (Utf8.encode (entryText minIAT)))
  | cut {entry : Option Int} {status : Nat} {body : Bytes} (serves : 200 ≤ status ∧ status < 300)
      (unread : decodeEntry body = none) : Answers entry (.answered status body)

/-- The same of the Go server. -/
structure ServeReads (token : Text) (claims : Claims) (v : Serve.Verifier) (denylist : Denylist) (key : Text) : Prop where
  parses : ∀ keys host found, (∀ second ∈ claims.issuedAt, Exact second) → v.parse keys host token = some found →
    found.subject = claims.subject ∧ found.siteId = claims.siteId ∧ found.issuedAt = claims.issuedAt
  reads : ∀ reader, v.revoked = some reader → ∃ get, reader = lookupRevoked get ∧ Answers (denylist key) (get key)

/-! ### What a revocation promises -/

/-- The subjects of a token. Those of an organisation are the tokens for its sites. -/
def Concerns (orgOf : Text → Text) (call : Revocation) (claims : Claims) : Prop :=
  (call.kind = kindUser ∧ call.id = claims.subject) ∨ (call.kind = kindSite ∧ call.id = claims.siteId) ∨
    (call.kind = kindOrg ∧ call.id = orgOf claims.siteId)

variable (orgOf : Text → Text)

/-- No reader of the entry admits the token, on a route of the site's organisation. -/
structure Rejected (denylist : Denylist) (key : Text) (claims : Claims) : Prop where
  worker : ∀ token s request route url world found, WorkerReads token claims s denylist key →
    route.orgId.text = orgOf route.siteId.text → ¬ Admitted s request route url world token found
  serve : ∀ token v host siteId mode, ServeReads token claims v denylist key →
    Serve.Verifier.verify v token host siteId mode (orgOf siteId) = none

/-- Where a revocation has returned without an error and its entry is there, every
token of the subject that was minted before it started is rejected. -/
def Complete (state : Running κ K) : Prop :=
  ∀ call revocation earlier, state.position call = .revoking ⟨revocation, .returned none⟩ earlier →
    state.store.denylist.covers revocation = true → ∀ token ∈ earlier, Concerns orgOf revocation token.claims →
      Rejected orgOf state.store.denylist revocation.key token.claims

/-- The condition on a step: no revocation starts in a second in which a token of its
subject has been minted, and seconds are those that JSON readers keep. -/
structure Apart (state : Running κ K) (act : Act κ Answer) : Prop where
  whole : Exact ⌊state.store.now⌋
  apart : ∀ asker request revocation, state.position act.1 = .waiting (.asking asker request) →
    request.revocation asker ⌊state.store.now⌋ = some revocation →
    ∀ token ∈ state.store.minted, Concerns orgOf revocation token.claims → ⌊token.mintedAt⌋ ≠ ⌊state.store.now⌋

/-! ### The entry, written and read -/

private theorem entry_doc {minIAT : Int} (positive : 0 ≤ minIAT) :
    (Doc.obj [member "min_iat" (.num (intLiteral minIAT))]).Proper ∧
      intLiteral minIAT = JsonText.decimal minIAT.natAbs := by
  have literal : intLiteral minIAT = JsonText.decimal minIAT.natAbs := by
    rw [intLiteral, if_neg (by omega)]
  refine ⟨Doc.properMembers_iff.mpr fun field mem => ?_, literal⟩
  rw [List.mem_singleton.mp mem]
  exact ⟨whole_chars _, _, literal⟩

private theorem decodeEntry_entryText {minIAT : Int} (positive : 0 ≤ minIAT) (fits : Exact minIAT) :
    decodeEntry (Utf8.encode (entryText minIAT)) = some minIAT := by
  obtain ⟨proper, literal⟩ := entry_doc positive
  have small : minIAT.natAbs < 2 ^ 63 := Nat.lt_trans fits (by decide)
  have number : parseInt64 (intLiteral minIAT) = some minIAT := by
    rw [literal, parseInt64_decimal small, Int.natAbs_of_nonneg positive]
  have read : goDecode (Utf8.encode (entryText minIAT)) =
      some (.obj [member "min_iat" (.num (intLiteral minIAT))], []) := by
    rw [goDecode, Utf8.runeText_encode]
    exact JsonText.read_write proper
  have named : [member "min_iat" (.num (intLiteral minIAT))].filter (names "min_iat") =
      [member "min_iat" (.num (intLiteral minIAT))] := rfl
  rw [decodeEntry, read]
  simp only [decodeOver, named]
  exact congrArg (fun found => found.bind some) number

private theorem trim_braces (inner : Text) :
    Text.trim ('\x7b' :: inner ++ ['\x7d']) = '\x7b' :: inner ++ ['\x7d'] := by
  have opened : Text.isSpace '\x7b' = false := by decide
  have closed : Text.isSpace '\x7d' = false := by decide
  rw [Text.trim, List.cons_append, List.dropWhile_cons_of_neg (by rw [opened]; exact Bool.false_ne_true),
    ← List.cons_append, List.reverse_append, List.reverse_singleton, List.singleton_append,
    List.dropWhile_cons_of_neg (by rw [closed]; exact Bool.false_ne_true), List.reverse_cons,
    List.reverse_reverse]

private theorem parseRevokedEntry_entryText {rt : Edge.Runtime}
    (parses : ∀ text, rt.jsonParse text = (JsonText.parse text).map Doc.value) {minIAT : Int}
    (positive : 0 ≤ minIAT) (fits : Exact minIAT) :
    Edge.parseRevokedEntry rt (some (entryText minIAT)) = some (minIAT : Rat) := by
  obtain ⟨proper, literal⟩ := entry_doc positive
  have trimmed : Text.trim (entryText minIAT) = entryText minIAT := trim_braces _
  have filled : entryText minIAT ≠ [] := List.cons_ne_nil _ _
  have opened : Text.startsWith (entryText minIAT) "\x7b".toList = true := rfl
  have value : JsonText.nearestDouble (JsonText.literalValue (intLiteral minIAT)) = some (minIAT : Rat) := by
    rw [literal, JsonText.literalValue_decimal, JsonText.nearestDouble_natCast fits]
    have same : ((minIAT.natAbs : Int) : Rat) = minIAT := congrArg Int.cast (Int.natAbs_of_nonneg positive)
    exact congrArg some ((Int.cast_natCast _).symm.trans same)
  have read : rt.jsonParse (entryText minIAT) = some (.obj [("min_iat", .num minIAT)]) := by
    have assigned : Doc.assignAll [] ([("min_iat", Doc.num (intLiteral minIAT))].map fun field =>
        (field.1.toList.map .char, field.2)) = _ := Doc.assignAll_distinct [] (by simp)
    have parsed : JsonText.parse (entryText minIAT) = some (.obj [member "min_iat" (.num (intLiteral minIAT))]) :=
      JsonText.parse_write proper
    rw [parses, parsed, Option.map_some, Doc.value]
    refine congrArg (fun members => some (Json.obj members)) (assigned.trans ?_)
    simp only [List.nil_append, List.map_cons, List.map_nil, Doc.value, value, Option.map_some, Option.getD_some]
  have kept : (0 : Rat) ≤ minIAT := by exact_mod_cast positive
  simp only [Edge.parseRevokedEntry, trimmed, if_neg filled, opened, if_true, read]
  exact Option.filter_some_pos (decide_eq_true kept)

/-! ### What an entry rejects -/

private theorem mapM_read {kv : Edge.KVRead} {keys : List Text} {entries : List (Option Text)}
    (read : keys.mapM kv = .ok entries) {key : Text} (mem : key ∈ keys) : ∃ raw ∈ entries, kv key = .ok raw := by
  induction keys generalizing entries with
  | nil => cases mem
  | cons first rest ih =>
    rw [List.mapM_cons] at read
    obtain ⟨raw, here, read⟩ := Outcome.bind_ok.mp read
    obtain ⟨raws, later, read⟩ := Outcome.bind_ok.mp read
    cases read
    rcases List.mem_cons.mp mem with rfl | mem
    · exact ⟨raw, List.mem_cons_self, here⟩
    · obtain ⟨found, inside, read⟩ := ih later mem
      exact ⟨found, List.mem_cons_of_mem _ inside, read⟩

private theorem isRevoked_of {rt : Edge.Runtime} {kv : Edge.KVRead} {subject : Edge.RevocationSubject} {key : Text}
    (own : key ∈ Edge.denylistKeys subject)
    (late : ∀ raw, kv key = .ok raw → ∃ minIat, Edge.parseRevokedEntry rt raw = some minIat ∧ subject.iat < minIat) :
    Edge.isRevoked rt kv subject = true := by
  unfold Edge.isRevoked
  cases read : (Edge.denylistKeys subject).mapM kv with
  | error => rfl
  | ok entries =>
    obtain ⟨raw, mem, here⟩ := mapM_read read own
    obtain ⟨minIat, parsed, later⟩ := late raw here
    refine List.any_eq_true.mpr ⟨raw, mem, ?_⟩
    rw [parsed]
    exact decide_eq_true later

variable {orgOf : Text → Text} {token : Text} {denylist : Denylist} {call : Revocation} {claims : Claims}
variable {second entry : Int}

private theorem worker_key (concerns : Concerns orgOf call claims) {subject : Edge.RevocationSubject}
    (sub : subject.sub = claims.subject) (site : subject.siteId = claims.siteId)
    (org : subject.orgId = orgOf claims.siteId) : call.key ∈ Edge.denylistKeys subject := by
  obtain ⟨kind, id, minIAT⟩ := call
  unfold Edge.denylistKeys
  rw [sub, site, org]
  rcases concerns with ⟨same, own⟩ | ⟨same, own⟩ | ⟨same, own⟩
  · cases same
    cases own
    exact List.mem_cons_self
  · cases same
    cases own
    exact List.mem_cons_of_mem _ List.mem_cons_self
  · cases same
    cases own
    exact List.mem_cons_of_mem _ (List.mem_cons_of_mem _ List.mem_cons_self)

private theorem member_payload (claims : Claims) (second : Int) :
    Json.member claims.payload "sub" = some (.str (String.ofList claims.subject)) ∧
      Json.member claims.payload "site_id" = some (.str (String.ofList claims.siteId)) ∧
      (claims.issuedAt = some second → Json.member claims.payload "iat" = some (.num second)) := by
  obtain ⟨issuer, subject, audience, expiresAt, issuedAt, id, siteId, mode⟩ := claims
  cases expiresAt with
  | none =>
    cases issuedAt with
    | none => exact ⟨rfl, rfl, fun same => by cases same⟩
    | some issued => exact ⟨rfl, rfl, fun same => by cases same; rfl⟩
  | some expires =>
    cases issuedAt with
    | none => exact ⟨rfl, rfl, fun same => by cases same⟩
    | some issued => exact ⟨rfl, rfl, fun same => by cases same; rfl⟩

private theorem edgeClaims_read {p : Edge.VerifyParams} {payload : List (String × Json)} {found : Edge.EdgeClaims}
    (sub : Json.member payload "sub" = some (.str (String.ofList claims.subject)))
    (site : Json.member payload "site_id" = some (.str (String.ofList claims.siteId)))
    (iat : Json.member payload "iat" = some (.num second)) (read : Edge.edgeClaims p payload = some found) :
    found.sub.toList = claims.subject ∧ found.siteId = claims.siteId ∧ p.siteId = claims.siteId ∧
      found.iat = second := by
  unfold Edge.edgeClaims at read
  rw [sub, site] at read
  cases mode : Json.member payload "mode" with
  | none =>
    rw [mode] at read
    cases read
  | some value =>
    cases value with
    | str mode' =>
      rw [mode] at read
      simp only [iat] at read
      split_ifs at read with other
      cases read
      have same := not_not.mp other
      rw [String.toList_ofList] at same
      exact ⟨String.toList_ofList, String.toList_ofList, same.symm, rfl⟩
    | null | bool | num | arr | obj =>
      rw [mode] at read
      cases read

/-- The Worker rejects a token that is older than its subject's entry. -/
theorem worker_rejects (concerns : Concerns orgOf call claims) (issued : claims.issuedAt = some second)
    (whole : Exact second) (stored : denylist call.key = some entry) (positive : 0 ≤ entry) (fits : Exact entry)
    (earlier : second < entry) {s : Edge.Setting} {request : Edge.Request} {route : Edge.RouteValue} {url : Uri.Url}
    {world : Edge.World} {found : Edge.EdgeClaims} (reads : WorkerReads token claims s denylist call.key)
    (routed : route.orgId.text = orgOf route.siteId.text) :
    ¬ Admitted s request route url world token found := by
  intro admitted
  obtain ⟨⟨keys, payload, -, signed, parsed⟩, -⟩ := verifyEdgeToken_bound admitted.verified
  have exact' : ∀ second ∈ claims.issuedAt, Exact second := by
    intro other mem
    rw [issued] at mem
    cases mem
    exact whole
  have kept := reads.verifies keys _ payload exact' signed
  obtain ⟨sub, site, iat⟩ := member_payload claims second
  obtain ⟨sub, site, own, iat⟩ := edgeClaims_read (kept _ _ (by decide) sub) (kept _ _ (by decide) site)
    (kept _ _ (by decide) (iat issued)) parsed
  have org : route.orgId.text = orgOf claims.siteId := routed.trans (congrArg orgOf own)
  have revoked : Edge.isRevoked s.rt (Edge.revokedKV s.env)
      ⟨found.sub.toList, found.siteId, route.orgId.text, found.iat⟩ = true := by
    refine isRevoked_of (worker_key concerns sub site org) fun raw read => ⟨entry, ?_, ?_⟩
    · rw [reads.reads raw read, stored]
      exact parseRevokedEntry_entryText reads.parses positive fits
    · rw [iat]
      exact Int.cast_lt.mpr earlier
  rw [admitted.unrevoked] at revoked
  cases revoked

private theorem getRevoked_answers {response : KVResponse} (answers : Answers (some entry) response)
    (positive : 0 ≤ entry) (fits : Exact entry) :
    (∃ error, getRevoked response = .error error) ∨ getRevoked response = .ok (some entry) := by
  cases answers with
  | unreachable => exact .inl ⟨_, rfl⟩
  | refused present refuses =>
    rw [getRevoked, if_neg present, if_pos refuses]
    exact .inl ⟨_, rfl⟩
  | found serves =>
    rw [getRevoked, if_neg (by omega), if_neg (by omega), decodeEntry_entryText positive fits]
    exact .inr rfl
  | cut serves unread =>
    rw [getRevoked, if_neg (by omega), if_neg (by omega), unread]
    exact .inl ⟨_, rfl⟩

private theorem lookup_answers {get : Text → KVResponse} (answers : Answers (some entry) (get call.key))
    (positive : 0 ≤ entry) (fits : Exact entry) :
    (∃ error, lookupRevoked get call.kind call.id = .error error) ∨
      lookupRevoked get call.kind call.id = .ok (some entry) := by
  unfold lookupRevoked
  split
  · exact .inl ⟨_, rfl⟩
  split
  · exact .inl ⟨_, rfl⟩
  exact getRevoked_answers answers positive fits

private theorem serve_key (concerns : Concerns orgOf call claims) :
    (call.kind, call.id) ∈
      [(kindUser, claims.subject), (kindSite, claims.siteId), (kindOrg, orgOf claims.siteId)] := by
  obtain ⟨kind, id, minIAT⟩ := call
  rcases concerns with ⟨same, own⟩ | ⟨same, own⟩ | ⟨same, own⟩
  · cases same
    cases own
    exact List.mem_cons_self
  · cases same
    cases own
    exact List.mem_cons_of_mem _ List.mem_cons_self
  · cases same
    cases own
    exact List.mem_cons_of_mem _ (List.mem_cons_of_mem _ List.mem_cons_self)

private theorem serve_rejects (concerns : Concerns orgOf call claims) (issued : claims.issuedAt = some second)
    (whole : Exact second) (stored : denylist call.key = some entry) (positive : 0 ≤ entry) (fits : Exact entry)
    (earlier : second < entry) {v : Serve.Verifier} {host siteId mode : Text}
    (reads : ServeReads token claims v denylist call.key) :
    v.verify token host siteId mode (orgOf siteId) = none := by
  have revoked : v.isRevoked claims.subject claims.siteId (orgOf claims.siteId) second = true := by
    unfold Serve.Verifier.isRevoked
    cases given : v.revoked with
    | none => rfl
    | some reader =>
      obtain ⟨get, rfl, answers⟩ := reads.reads reader given
      rw [stored] at answers
      refine List.any_eq_true.mpr ⟨_, serve_key concerns, ?_⟩
      rcases lookup_answers answers positive fits with ⟨error, failed⟩ | found
      · simp only [failed]
      · simp only [found]
        exact decide_eq_true earlier
  unfold Serve.Verifier.verify
  split
  · rfl
  cases v.keys with
  | none => rfl
  | some keys =>
    rw [Option.bind_eq_bind, Option.bind_some]
    cases verified : Edgetoken.verify v.parse keys token host with
    | none => rfl
    | some found =>
      have parsed : v.parse keys host token = some found := by
        unfold Edgetoken.verify at verified
        split at verified
        · cases verified
        · exact (Option.filter_eq_some_iff.mp verified).1
      obtain ⟨sub, site, iat⟩ := reads.parses keys host found (by
        intro other mem
        rw [issued] at mem
        cases mem
        exact whole) parsed
      rw [Option.bind_eq_bind, Option.bind_some]
      by_cases own : found.siteId ≠ siteId
      · rw [if_pos own]
      rw [if_neg own]
      split
      · rfl
      split
      · rfl
      rw [site] at own
      rw [← not_not.mp own, sub, iat, issued, Option.getD_some, if_pos revoked]

/-! ### What every step keeps -/

/-- Tokens carry the second they were minted in, and entries are dates. -/
structure Sound (world : World K) : Prop where
  minted : ∀ token ∈ world.minted, token.claims.issuedAt = some ⌊token.mintedAt⌋ ∧ token.mintedAt ≤ world.now ∧
    Exact ⌊token.mintedAt⌋
  entries : ∀ key entry, world.denylist key = some entry → 0 ≤ entry ∧ Exact entry

/-- The tokens before a revocation are of an earlier second. -/
def Promised (orgOf : Text → Text) : Doing K → Prop
  | .revoking revoke earlier => Exact revoke.call.minIAT ∧ (revoke.stage = .writing → 0 ≤ revoke.call.minIAT) ∧
      ∀ token ∈ earlier, Concerns orgOf revoke.call token.claims →
        token.claims.issuedAt = some ⌊token.mintedAt⌋ ∧ Exact ⌊token.mintedAt⌋ ∧ ⌊token.mintedAt⌋ < revoke.call.minIAT
  | _ => True

variable {world after : World K} {answer : Answer}

theorem mint_issued {p : MintParams K} {jti : Option Text} {now : K}
    (minted : Edgetoken.mint p jti now = .ok claims) : claims.issuedAt = some ⌊now⌋ := by
  unfold Edgetoken.mint at minted
  cases jti with
  | none => split_ifs at minted
  | some id =>
    split_ifs at minted
    · cases minted
      rfl
    · cases minted
      rfl

private theorem revoke_keeps {revoke moved : RevokeCall} {earlier : List (Minted K)} {stored : Denylist}
    (ran : CloudflareKV.revoke answer revoke world.denylist = some (moved, stored)) (sound : Sound world)
    (promised : Promised orgOf (.revoking revoke earlier)) :
    Sound { world with denylist := stored } ∧ Promised orgOf (.revoking moved earlier) := by
  obtain ⟨call, stage⟩ := revoke
  obtain ⟨moved, reached⟩ := moved
  obtain ⟨rfl, step⟩ := revoke_step ran
  obtain ⟨exact', positive, before⟩ := promised
  have set (writing : stage = .writing) : Sound { world with denylist := world.denylist.set moved } := by
    refine ⟨sound.minted, fun key entry found => ?_⟩
    simp only [Denylist.set] at found
    by_cases own : key = moved.key
    · rw [own, Function.update_self] at found
      cases found
      exact ⟨positive writing, exact'⟩
    · rw [Function.update_of_ne own] at found
      exact sound.entries key entry found
  cases step with
  | rejected invalid => exact ⟨sound, exact', fun same => (by cases same), before⟩
  | covered valid covers => exact ⟨sound, exact', fun same => (by cases same), before⟩
  | reads valid uncovered =>
    refine ⟨sound, exact', fun _ => ?_, before⟩
    unfold Revocation.validate at valid
    split_ifs at valid with kind id low
    exact (not_le.mp low).le
  | writes => exact ⟨set rfl, exact', fun same => (by cases same), before⟩
  | unheard => exact ⟨set rfl, exact', fun same => (by cases same), before⟩
  | refused => exact ⟨sound, exact', fun same => (by cases same), before⟩

private theorem system_keeps {doing moved : Doing K} (ran : system answer doing world = some (moved, after))
    (sound : Sound world) (promised : Promised orgOf doing) (whole : Exact ⌊world.now⌋)
    (apart : ∀ asker request call, doing = .waiting (.asking asker request) →
      request.revocation asker ⌊world.now⌋ = some call →
      ∀ token ∈ world.minted, Concerns orgOf call token.claims → ⌊token.mintedAt⌋ ≠ ⌊world.now⌋) :
    Sound after ∧ Promised orgOf moved := by
  cases doing with
  | finished => cases ran
  | revoking revoke earlier =>
    obtain ⟨⟨next, stored⟩, step, same⟩ := Option.map_eq_some_iff.mp ran
    cases same
    exact revoke_keeps step sound promised
  | waiting event =>
    cases event with
    | passing later =>
      cases ran
      refine ⟨⟨fun token mem => ?_, sound.entries⟩, trivial⟩
      obtain ⟨issued, past, kept⟩ := sound.minted token mem
      exact ⟨issued, le_max_of_le_left past, kept⟩
    | minting p jti =>
      rw [system] at ran
      cases minted : Edgetoken.mint p jti world.now with
      | error error =>
        rw [minted] at ran
        cases ran
        exact ⟨sound, trivial⟩
      | ok claims =>
        rw [minted] at ran
        cases ran
        refine ⟨⟨fun token mem => ?_, sound.entries⟩, trivial⟩
        rcases List.mem_cons.mp mem with rfl | mem
        · exact ⟨mint_issued minted, le_rfl, whole⟩
        · exact sound.minted token mem
    | asking asker request =>
      rw [system] at ran
      cases asked : request.revocation asker ⌊world.now⌋ with
      | none =>
        rw [asked] at ran
        cases ran
        exact ⟨sound, trivial⟩
      | some call =>
        rw [asked] at ran
        cases ran
        have second : call.minIAT = ⌊world.now⌋ := by
          obtain ⟨target, -, same⟩ := Option.map_eq_some_iff.mp asked
          rw [← same]
        refine ⟨sound, second ▸ whole, fun same => (by cases same), fun token mem concerns => ?_⟩
        obtain ⟨issued, past, kept⟩ := sound.minted token mem
        have earlier : ⌊token.mintedAt⌋ ≤ ⌊world.now⌋ := FloorRing.gc_coe_floor.monotone_u past
        refine ⟨issued, kept, ?_⟩
        rw [second]
        exact lt_of_le_of_ne earlier (apart asker request call rfl asked token mem concerns)

/-- The invariant of a run. -/
def Kept (orgOf : Text → Text) (state : Running κ K) : Prop :=
  Sound state.store ∧ ∀ call, Promised orgOf (state.position call)

private theorem perform_kept (state : Running κ K) (act : Act κ Answer) (kept : Kept orgOf state)
    (apart : Apart orgOf state act) : Kept orgOf (perform system state act) := by
  cases ran : system act.2 (state.position act.1) state.store with
  | none =>
    rw [perform_none ran]
    exact kept
  | some result =>
    obtain ⟨moved, after⟩ := result
    obtain ⟨sound, promised⟩ := system_keeps ran kept.1 (kept.2 act.1) apart.whole apart.apart
    rw [perform_some ran]
    refine ⟨sound, fun call => ?_⟩
    simp only
    by_cases own : call = act.1
    · rw [own, Function.update_self]
      exact promised
    · rw [Function.update_of_ne own]
      exact kept.2 call

omit [DecidableEq κ] in
private theorem Kept.complete {state : Running κ K} (kept : Kept orgOf state) : Complete orgOf state := by
  intro call revocation earlier returned covers token mem concerns
  have promised := kept.2 call
  rw [returned] at promised
  obtain ⟨issued, whole, before⟩ := promised.2.2 token mem concerns
  unfold Denylist.covers at covers
  obtain ⟨entry, stored, late⟩ := (Option.any_eq_true _ _).mp covers
  obtain ⟨positive, fits⟩ := kept.1.entries _ _ stored
  have earlier := lt_of_lt_of_le before (of_decide_eq_true late)
  constructor
  · intro token s request route url world found reads routed
    exact worker_rejects concerns issued whole stored positive fits earlier reads routed
  · intro token v host siteId mode reads
    exact serve_rejects concerns issued whole stored positive fits earlier reads

def site : Text := "s".toList

/-- A token for a site is minted; later, an admin revokes the site. -/
def siteEvents (later : ℚ) : Nat → Event ℚ
  | 0 => .minting ⟨"h".toList, "u".toList, site, Edgetoken.modeOrgOnly, 0⟩ (some "j".toList)
  | 1 => .passing later
  | _ => .asking ⟨"o".toList, true, fun _ => true, fun _ => true⟩ (.revokeSiteAccess site)

def siteClaims (issued expires : Int) : Claims :=
  { issuer := Edgetoken.issuer, subject := "u".toList, audience := ["h".toList], expiresAt := some expires
    issuedAt := some issued, id := "j".toList, siteId := site, mode := Edgetoken.modeOrgOnly }

def siteSchedule : List (Act Nat Answer) := [(0, .served), (1, .served), (2, .served), (2, .served), (2, .served)]

section
variable {now later : ℚ}

def siteToken (now : ℚ) : Minted ℚ := ⟨siteClaims ⌊now⌋ ⌊now + Edgetoken.defaultTTL⌋, now⟩

def siteCall (later : ℚ) : Revocation := ⟨kindSite, site, ⌊later⌋⟩

def mintedState (now later : ℚ) : Running Nat ℚ :=
  ⟨⟨now, [siteToken now], fun _ => none⟩, Function.update (fun call => .waiting (siteEvents later call)) 0 .finished⟩

def passedState (now later : ℚ) : Running Nat ℚ :=
  ⟨⟨later, [siteToken now], fun _ => none⟩, Function.update (mintedState now later).position 1 .finished⟩

def revokingState (now later : ℚ) (stage : Stage) (denylist : Denylist) : Running Nat ℚ :=
  ⟨⟨later, [siteToken now], denylist⟩,
    Function.update (passedState now later).position 2 (.revoking ⟨siteCall later, stage⟩ [siteToken now])⟩

private theorem site_passes (order : now ≤ later) :
    perform system (mintedState now later) (1, .served) = passedState now later := by
  have moved : perform system (mintedState now later) (1, .served) =
      ⟨⟨max now later, [siteToken now], fun _ => none⟩, (passedState now later).position⟩ := rfl
  rw [moved, max_eq_right order]
  rfl

private theorem site_reads (positive : 0 < ⌊later⌋) :
    perform system (revokingState now later .called fun _ => none) (2, .served) =
      revokingState now later .writing fun _ => none := by
  have valid : (siteCall later).validate = .ok () := by
    have kind : [kindUser, kindSite, kindOrg].contains kindSite = true := by decide
    have filled : site ≠ [] := by decide
    exact (if_neg (not_not.mpr kind)).trans ((if_neg filled).trans (if_neg (not_le.mpr positive)))
  have step : system .served (.revoking ⟨siteCall later, .called⟩ [siteToken now])
      ⟨later, [siteToken now], fun _ => none⟩ =
      some (.revoking ⟨siteCall later, .writing⟩ [siteToken now], ⟨later, [siteToken now], fun _ => none⟩) := by
    rw [system, CloudflareKV.revoke, valid]
    rfl
  have moved : perform system (revokingState now later .called fun _ => none) (2, .served) =
      ⟨⟨later, [siteToken now], fun _ => none⟩,
        Function.update (revokingState now later .called fun _ => none).position 2
          (.revoking ⟨siteCall later, .writing⟩ [siteToken now])⟩ := perform_some step
  rw [moved, revokingState, Function.update_idem]
  rfl

private theorem site_writes :
    perform system (revokingState now later .writing fun _ => none) (2, .served) =
      revokingState now later (.returned none) (Denylist.set (fun _ => none) (siteCall later)) := by
  have step : system .served (.revoking ⟨siteCall later, .writing⟩ [siteToken now])
      ⟨later, [siteToken now], fun _ => none⟩ = some (.revoking ⟨siteCall later, .returned none⟩ [siteToken now],
        ⟨later, [siteToken now], Denylist.set (fun _ => none) (siteCall later)⟩) := rfl
  have moved : perform system (revokingState now later .writing fun _ => none) (2, .served) =
      ⟨⟨later, [siteToken now], Denylist.set (fun _ => none) (siteCall later)⟩,
        Function.update (revokingState now later .writing fun _ => none).position 2
          (.revoking ⟨siteCall later, .returned none⟩ [siteToken now])⟩ := perform_some step
  rw [moved, revokingState, Function.update_idem]
  rfl

/-- The run and its states. -/
private theorem site_runs (order : now ≤ later) (positive : 0 < ⌊later⌋) :
    performAll system siteSchedule (outset (siteEvents later) now) =
      revokingState now later (.returned none) (Denylist.set (fun _ => none) (siteCall later)) := by
  have minted : perform system (outset (siteEvents later) now) (0, .served) = mintedState now later := rfl
  have asked : perform system (passedState now later) (2, .served) =
      revokingState now later .called fun _ => none := rfl
  simp only [siteSchedule, performAll_cons, performAll_nil, minted, site_passes order, asked, site_reads positive,
    site_writes]

private theorem site_apart (order : now ≤ later) (positive : 0 < ⌊later⌋) (first : Exact ⌊now⌋)
    (last : Exact ⌊later⌋) (differ : ⌊now⌋ ≠ ⌊later⌋) (orgOf : Text → Text) :
    Meets system (Apart orgOf) siteSchedule (outset (siteEvents later) now) := by
  have minted : perform system (outset (siteEvents later) now) (0, .served) = mintedState now later := rfl
  have asked : perform system (passedState now later) (2, .served) =
      revokingState now later .called fun _ => none := rfl
  simp only [siteSchedule, Meets, minted, site_passes order, asked, site_reads positive, and_true]
  refine ⟨⟨first, ?_⟩, ⟨first, ?_⟩, ⟨last, ?_⟩, ⟨last, ?_⟩, ⟨last, ?_⟩⟩
  · intro asker request call waits
    cases waits
  · intro asker request call waits
    cases waits
  · intro asker request call waits asks token mem concerns
    rw [List.mem_singleton.mp mem]
    exact differ
  · intro asker request call waits
    cases waits
  · intro asker request call waits
    cases waits

end

/-- A KV namespace that holds the entry of the site alone. -/
def siteEntry (key : Text) : KVResponse :=
  if key = "revoked:site:s".toList then .answered 200 (Utf8.encode (entryText 10)) else .answered 404 []

def siteVerifier : Serve.Verifier :=
  { keys := some [], parse := fun _ _ _ => some (siteClaims 10 910), revoked := some (lookupRevoked siteEntry) }

private theorem site_admitted : Serve.Verifier.verify siteVerifier "t".toList "h".toList site [] "o".toList =
    some ⟨"u".toList, site, Edgetoken.modeOrgOnly, 10⟩ := by
  decide +kernel

end Dropway.Proofs.HardRevocation
