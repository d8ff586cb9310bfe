import Dropway.Edge.Worker

/-! A gated site tells an unadmitted visitor nothing about its bucket: two
buckets give the same answer and leave the same state behind. -/

namespace Dropway.Proofs.GatedSecrecy
open Dropway.Lib Dropway.Lib.Uri Dropway.Edge

def withBucket (s : Setting) (bucket : Bucket) : Setting :=
  { s with env := { s.env with bucket } }

@[simp] theorem withBucket_rt (s : Setting) (bucket : Bucket) : (withBucket s bucket).rt = s.rt := rfl

@[simp] theorem withBucket_pages (s : Setting) (bucket : Bucket) :
    (withBucket s bucket).pages = s.pages := rfl

@[simp] theorem withBucket_now (s : Setting) (bucket : Bucket) : (withBucket s bucket).now = s.now :=
  rfl

/-- The route value that a host is served under. -/
def Routed (s : Setting) (host : Text) (route : RouteValue) : Prop :=
  ∃ raw, s.routeJson (routeKey host) = .ok raw ∧ parseRouteValue s.rt.dateParse raw = some route

def tokenParams (s : Setting) (route : RouteValue) (host token : Text) : VerifyParams :=
  { token, host, siteId := route.siteId.text, expectedMode := route.accessMode.text,
    jwksUrl := (gatedConfig s.env).jwksUrl, now := s.gateNow }

/-- The request carries an edge cookie that verifies for the host, the site and
the access mode, and that nothing has revoked. -/
structure Admitted (s : Setting) (request : Request) (route : RouteValue) (url : Url)
    (world : World) (token : Text) (claims : EdgeClaims) : Prop where
  cookie : readEdgeCookie request = some token
  verified : (verifyEdgeToken s.jose s.fetchImpl
    (world.jwksCache (gatedConfig s.env).jwksUrl) (tokenParams s route url.host token)).1 = some claims
  unrevoked : isRevoked s.rt (revokedKV s.env)
    { sub := claims.sub.toList, siteId := claims.siteId, orgId := route.orgId.text,
      iat := claims.iat } = false

/-! ### What a verified token is bound to -/

private theorem edgeClaims_bound {p : VerifyParams} {payload : List (String × Json)}
    {claims : EdgeClaims} (found : edgeClaims p payload = some claims) :
    claims.aud = p.host ∧ claims.siteId = p.siteId ∧ claims.mode = p.expectedMode ∧
      claims.mode ∈ edgeModes := by
  unfold edgeClaims at found
  split at found
  · split_ifs at found with site mode expected sub
    obtain rfl := Option.some.inj found
    exact ⟨rfl, not_not.mp site, not_not.mp expected, mode⟩
  · cases found

/-- A token that verifies is signed under a loaded key and bound to the host,
the site and the mode of the route. -/
theorem verifyEdgeToken_bound {jose : Jose} {fetchImpl : FetchLike} {cached : Option JwksCacheEntry}
    {p : VerifyParams} {claims : EdgeClaims}
    (verified : (verifyEdgeToken jose fetchImpl cached p).1 = some claims) :
    (∃ keys payload, (loadKeys jose fetchImpl p.jwksUrl cached p.now).1 = some keys ∧
      jose.jwtVerify p.token keys (verifyOptions p.host p.now) = some payload ∧
      edgeClaims p payload = some claims) ∧
    claims.aud = p.host ∧ claims.siteId = p.siteId ∧ claims.mode = p.expectedMode ∧
      claims.mode ∈ edgeModes := by
  unfold verifyEdgeToken at verified
  split_ifs at verified with empty
  obtain ⟨keys, loaded, rest⟩ := Option.bind_eq_some_iff.mp verified
  obtain ⟨payload, signed, found⟩ := Option.bind_eq_some_iff.mp rest
  exact ⟨⟨keys, payload, loaded, signed, found⟩, edgeClaims_bound found⟩

/-! ### Runs -/

def run {α : Type} (action : Serving α) (world : World) : Except Thrown α × World :=
  action.run.run world

theorem run_bind_eq {α β : Type} (action : Serving α) (next : α → Serving β)
    (world : World) : run (action >>= next) world =
      match run action world with
      | (.ok value, after) => run (next value) after
      | (.error thrown, after) => (.error thrown, after) := by
  simp only [run, ExceptT.run_bind, StateT.run_bind]
  rcases step : StateT.run action.run world with ⟨result | result, after⟩ <;> rfl

private theorem run_bind {α β : Type} {action : Serving α} {next next' : α → Serving β}
    {world : World}
    (same : ∀ value after, run action world = (.ok value, after) →
      run (next value) after = run (next' value) after) :
    run (action >>= next) world = run (action >>= next') world := by
  rw [run_bind_eq, run_bind_eq]
  rcases step : run action world with ⟨thrown | value, after⟩
  · rfl
  · exact same value after step

theorem run_lift {α : Type} (action : StateM World α) (world : World) :
    run (liftM action) world = (.ok (action.run world).1, (action.run world).2) := by
  rfl

private theorem readOrgStatus_world (s : Setting) (orgId : Text) (world : World) :
    ((readOrgStatus s orgId).run world).2 = world := by
  unfold readOrgStatus
  cases s.env.limits with
  | none => rfl
  | some faults =>
    by_cases failed : faults.get (orgStatusKey orgId)
    · simp only [failed, if_true]
      rfl
    · simp only [failed]
      rfl

private theorem rateLimit_keys (s : Setting) (request : Request) (host : Text) (world : World) :
    ((rateLimit s request host).run world).2.jwksCache = world.jwksCache := by
  unfold rateLimit
  cases s.env.rateLimiter with
  | some limiter => rfl
  | none =>
    unfold rateLimitDecision
    cases s.env.limits with
    | none => rfl
    | some faults =>
      dsimp only
      by_cases failed : faults.get (windowKey (rateLimitIdentity request host) s.now
        (rateLimitPolicy s.env))
      · simp only [failed, if_true]
        rfl
      · by_cases lost : faults.put (windowKey (rateLimitIdentity request host) s.now
          (rateLimitPolicy s.env))
        · simp [failed, lost]
          split <;> rfl
        · simp [failed, lost]
          split <;> rfl

private theorem authorizeGated_some {s : Setting} {request : Request} {route : RouteValue}
    {url : Url} {world : World} {claims : EdgeClaims}
    (granted : ((authorizeGated s request route url).run world).1 = some claims) :
    ∃ token, readEdgeCookie request = some token ∧
      (verifyEdgeToken s.jose s.fetchImpl (world.jwksCache (gatedConfig s.env).jwksUrl)
        (tokenParams s route url.host token)).1 = some claims := by
  unfold authorizeGated at granted
  cases cookie : readEdgeCookie request with
  | none =>
    rw [cookie] at granted
    cases granted
  | some token =>
    rw [cookie] at granted
    refine ⟨token, rfl, ?_⟩
    rw [← granted]
    simp only [verifyTokenSafely, tokenParams, StateT.run_bind, StateT.run_get, pure_bind]
    rcases verifyEdgeToken s.jose s.fetchImpl _ _ with ⟨claims, kept⟩
    by_cases fetched : kept.isSome
    · simp only [fetched, if_true]
      rfl
    · simp only [fetched]
      rfl

/-! ### Two buckets -/

section
variable {s : Setting} {request : Request} {route : RouteValue} {url : Url}
variable (bucket bucket' : Bucket)

private theorem llmMeta_blind (gated : route.accessMode ≠ .public) :
    handleLLMMeta (withBucket s bucket) request route url =
      handleLLMMeta (withBucket s bucket') request route url := by
  unfold handleLLMMeta
  cases cleanPath url.pathname with
  | none => rfl
  | some clean => simp only [gated, decide_false, Bool.false_eq_true, and_false, if_false, withBucket]

private theorem embed_blind (gated : route.accessMode ≠ .public) :
    serveEmbed (withBucket s bucket) request route url =
      serveEmbed (withBucket s bucket') request route url := by
  unfold serveEmbed
  simp only [gated, ne_eq, not_false_eq_true, if_true]
  rfl

/-- The content is asked for after the token and the denylist only. -/
private theorem gate_blind {world : World}
    (unadmitted : ∀ token claims, ¬ Admitted s request route url world token claims)
    (content content' : Serving Response) :
    run (serveGated (withBucket s bucket) request route url content) world =
      run (serveGated (withBucket s bucket') request route url content') world := by
  unfold serveGated
  by_cases callback : url.pathname = authzCallbackPath
  · simp only [callback, if_true]
    rfl
  · simp only [callback, if_false]
    refine run_bind fun claims after step => ?_
    cases claims with
    | none => rfl
    | some claims =>
      have revoked : isRevoked s.rt (revokedKV s.env)
          { sub := claims.sub.toList, siteId := claims.siteId, orgId := route.orgId.text,
            iat := claims.iat } = true := by
        have granted := congrArg Prod.fst step
        rw [run_lift] at granted
        obtain ⟨token, cookie, verified⟩ := authorizeGated_some (Except.ok.inj granted)
        by_contra unrevoked
        exact unadmitted token claims ⟨cookie, verified, Bool.eq_false_iff.mpr unrevoked⟩
      have denied (b : Bucket) : isRevoked (withBucket s b).rt (revokedKV (withBucket s b).env)
          { sub := claims.sub.toList, siteId := claims.siteId, orgId := route.orgId.text,
            iat := claims.iat } = true := revoked
      simp only [denied, if_true]
      rfl

private theorem route_blind (gated : route.accessMode ≠ .public) {world : World}
    (unadmitted : ∀ token claims, ¬ Admitted s request route url world token claims) :
    run (dispatchRoute (withBucket s bucket) request route url) world =
      run (dispatchRoute (withBucket s bucket') request route url) world := by
  have llm := @llmMeta_blind s request route url bucket bucket' gated
  have embed := @embed_blind s request route url bucket bucket' gated
  unfold dispatchRoute
  simp only [withBucket_rt, withBucket_pages, withBucket_now, llm, embed]
  by_cases expired : isRouteExpired s.rt.dateParse route s.now
  · simp only [expired, if_true]
  · simp only [expired]
    refine run_bind fun status after step => ?_
    have unmoved : after = world := by
      have moved := congrArg Prod.snd step
      rw [run_lift] at moved
      exact moved.symm.trans (readOrgStatus_world _ _ _)
    subst unmoved
    cases blockingStatus status with
    | some blocking => rfl
    | none =>
      refine run_bind fun answer after' step' => ?_
      have unmoved : after' = after := by
        have moved := congrArg Prod.snd step'
        exact moved.symm
      subst unmoved
      cases answer with
      | some answer => rfl
      | none =>
        by_cases embedded : isEmbedRequested url
        · simp only [embedded, if_true]
        · simp only [embedded]
          have gate := @gate_blind s request route url bucket bucket' after' unadmitted
          cases mode : route.accessMode with
          | «public» => exact absurd mode gated
          | password => exact gate _ _
          | allowlist => exact gate _ _
          | orgOnly => exact gate _ _

end

private theorem Admitted.of_keys {s : Setting} {request : Request} {route : RouteValue} {url : Url}
    {world world' : World} {token : Text} {claims : EdgeClaims}
    (keys : world.jwksCache = world'.jwksCache)
    (admitted : Admitted s request route url world token claims) :
    Admitted s request route url world' token claims where
  cookie := admitted.cookie
  verified := by rw [← keys]; exact admitted.verified
  unrevoked := admitted.unrevoked

private theorem dispatch_blind {s : Setting} {route : RouteValue} {url : Url} (request : Request)
    (routed : Routed s url.host route) (gated : route.accessMode ≠ .public) (world : World)
    (unadmitted : ∀ token claims, ¬ Admitted s request route url world token claims)
    (bucket bucket' : Bucket) :
    run (dispatch (withBucket s bucket) request url) world =
      run (dispatch (withBucket s bucket') request url) world := by
  obtain ⟨raw, stored, parsed⟩ := routed
  have json (b : Bucket) : (withBucket s b).routeJson (routeKey url.host) = .ok raw := stored
  unfold dispatch
  by_cases method : request.method ≠ "GET" ∧ request.method ≠ "HEAD"
  · simp only [if_pos method]
  · simp only [if_neg method, withBucket_pages, withBucket_rt, json]
    by_cases script : request.headers.get "Service-Worker" = some "script".toList
    · simp only [if_pos script]
    · simp only [if_neg script]
      refine run_bind fun limit after step => ?_
      have keys : after.jwksCache = world.jwksCache := by
        have moved := congrArg (fun pair => pair.2.jwksCache) step
        exact moved.symm.trans (rateLimit_keys _ _ _ _)
      cases limit.allowed with
      | false => rfl
      | true =>
        refine run_bind fun raw' after' step' => ?_
        obtain ⟨rfl, rfl⟩ : raw = raw' ∧ after = after' := by
          have read := Prod.mk.inj step'
          exact ⟨Except.ok.inj read.1, read.2⟩
        simp only [parsed]
        exact route_blind bucket bucket' gated fun token claims admitted =>
          unadmitted token claims (admitted.of_keys keys)

/-- Answers to an unadmitted visitor of a gated route do not depend on the
bucket, and neither does the state they leave. -/
theorem gated_serve_blind {s : Setting} {route : RouteValue} {url : Url} (request : Request)
    (routed : Routed s url.host route) (gated : route.accessMode ≠ .public) (world : World)
    (unadmitted : ∀ token claims, ¬ Admitted s request route url world token claims)
    (bucket bucket' : Bucket) :
    run (serve (withBucket s bucket) request url) world =
      run (serve (withBucket s bucket') request url) world := by
  have dispatched := dispatch_blind request routed gated world unadmitted bucket bucket'
  unfold serve
  rw [run_bind_eq, run_bind_eq, dispatched]

/-! ### A members-only site -/

def membersId : Text := "11111111-1111-4111-8111-111111111111".toList

def membersRoute : RouteValue :=
  { orgId := ⟨membersId, by decide⟩, siteId := ⟨membersId, by decide⟩,
    versionId := ⟨membersId, by decide⟩, accessMode := .orgOnly, schemaVersion := 4,
    expiresAt := none, planTier := none, chatId := none }

def membersJson : Json :=
  .obj [("org_id", .str (String.ofList membersId)), ("site_id", .str (String.ofList membersId)),
    ("version_id", .str (String.ofList membersId)), ("access_mode", .str "org_only"),
    ("schema_version", .num 4)]

def membersText : Text :=
  "\x7b\"org_id\":\"".toList ++ membersId ++ "\",\"site_id\":\"".toList ++ membersId ++
    "\",\"version_id\":\"".toList ++ membersId ++
    "\",\"access_mode\":\"org_only\",\"schema_version\":4\x7d".toList

def membersSetting : Setting :=
  { rt := { jsonParse := fun text => if text = membersText then some membersJson else none
            dateParse := fun _ => none
            localeLe := fun _ _ => true
            urlParse := fun _ => none }
    jose := { importJWK := fun _ => false, jwtVerify := fun _ _ _ => none }
    pages := default
    env :=
      { routes := fun key =>
          .ok (if key = "route:acme.example.com".toList then some membersText else none)
        bucket := fun _ => none, edgeJwksUrl := none, appAuthzUrl := none, rateLimiter := none,
        limits := none, revoked := none, rateLimitMax := none, rateLimitWindowSeconds := none,
        attributionBanner := none }
    cache := true, fetchImpl := fun _ => none, now := 0, gateNow := 0 }

def membersUrl : Url :=
  { host := "acme.example.com".toList, query := none, path := ⟨[[]], by decide, by decide⟩ }

private theorem members_routed : Routed membersSetting membersUrl.host membersRoute := by
  have key : routeKey membersUrl.host = "route:acme.example.com".toList := by
    decide +kernel
  have stored : membersSetting.env.routes (routeKey membersUrl.host) = .ok (some membersText) := by
    rw [key]
    exact congrArg Except.ok (if_pos rfl)
  have read : membersSetting.rt.jsonParse membersText = some membersJson := by
    simp only [membersSetting, if_true]
  refine ⟨membersJson, ?_, ?_⟩
  · unfold Setting.routeJson
    rw [stored]
    dsimp only
    rw [read]
  · decide +kernel

theorem gated_serve_blind_members :
    run (serve (withBucket membersSetting fun _ => none) ⟨"GET", []⟩ membersUrl)
        ⟨fun _ => none, fun _ => none, fun _ => none⟩ =
      run (serve (withBucket membersSetting fun _ => some ⟨some [0x68], none, none, some 1, true⟩)
        ⟨"GET", []⟩ membersUrl) ⟨fun _ => none, fun _ => none, fun _ => none⟩ :=
  gated_serve_blind ⟨"GET", []⟩ members_routed (by decide) _
    (fun _ _ admitted => nomatch admitted.cookie) _ _

end Dropway.Proofs.GatedSecrecy
