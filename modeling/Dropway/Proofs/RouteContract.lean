import Dropway.Serve.RouteValue

/-! What the API writes for a route, and what its two readers make of it. The
writer checks less than the readers do. -/

namespace Dropway.Projection
open Lib

variable {v : RouteValue} {dateParse : String → Option Int}

/-- A member whose value is text. -/
def textMember (name : String) (value : Bytes) : List Glyph × Doc :=
  (name.toList.map .char, .str ((Utf8.runeText value).map .char))

/-- The members of a route value, and the optional ones among them. -/
def members (orgId siteId versionId accessMode : Bytes) (literal : Text)
    (expiresAt planTier chatId : Option Bytes) : List (List Glyph × Doc) :=
  [textMember "org_id" orgId, textMember "site_id" siteId, textMember "version_id" versionId,
    textMember "access_mode" accessMode, member "schema_version" (.num literal)] ++
    (expiresAt.map (textMember "expires_at")).toList ++ (planTier.map (textMember "plan_tier")).toList ++
    (chatId.map (textMember "chat_id")).toList

def nonempty (value : Bytes) : Option Bytes := if value = [] then none else some value

def RouteValue.members (v : RouteValue) : List (List Glyph × Doc) :=
  Projection.members v.orgId v.siteId v.versionId v.accessMode (intLiteral v.schemaVersion)
    (nonempty v.expiresAt) (nonempty v.planTier) (nonempty v.chatId)

/-! ### The text -/

private theorem whole_goGlyphs (bytes : Bytes) : Whole (goGlyphs bytes) := by
  intro unit mem
  obtain ⟨rune, -, same⟩ := List.mem_map.mp mem
  cases rune <;> cases same

private theorem legible_goGlyphs (bytes : Bytes) :
    (goGlyphs bytes).map Glyph.legible = (Utf8.runeText bytes).map .char := by
  rw [goGlyphs, Utf8.runeText, List.map_map, List.map_map]
  apply List.map_congr_left
  intro rune mem
  cases rune <;> rfl

private theorem legible_chars (text : Text) :
    (text.map Glyph.char).map Glyph.legible = text.map .char := by
  rw [List.map_map]
  rfl

private theorem legible_stringField (name : String) (value : Bytes) :
    ((stringField name value).1.map Glyph.legible, (stringField name value).2.legible) =
      textMember name value := by
  simp only [stringField, member, textMember, Doc.legible, legible_goGlyphs, legible_chars]

private theorem legible_optionalField (name : String) (value : Bytes) :
    (optionalField name value).map (fun member => (member.1.map Glyph.legible, member.2.legible)) =
      ((nonempty value).map (textMember name)).toList := by
  unfold optionalField nonempty
  split
  · rfl
  · exact congrArg ([·]) (legible_stringField name value)

private theorem proper_stringField (name : String) (value : Bytes) :
    Whole (stringField name value).1 ∧ (stringField name value).2.Proper :=
  ⟨whole_chars _, whole_goGlyphs value⟩

private theorem proper_optionalField (name : String) (value : Bytes) :
    ∀ member ∈ optionalField name value, Whole member.1 ∧ member.2.Proper := by
  intro member mem
  unfold optionalField at mem
  split at mem
  · cases mem
  · rw [List.mem_singleton.mp mem]
    exact proper_stringField name value

theorem RouteValue.doc_legible (v : RouteValue) : v.doc.legible = .obj v.members := by
  rw [RouteValue.doc, Doc.legible, Doc.legibleMembers_eq_map]
  simp only [List.map_append, List.map_cons, List.map_nil, legible_stringField, legible_optionalField]
  rfl

/-- A value that is written has a natural number for its version. -/
theorem RouteValue.doc_proper (version : 0 ≤ v.schemaVersion) : v.doc.Proper := by
  apply Doc.properMembers_iff.mpr
  intro field mem
  simp only [List.mem_append, List.mem_cons, List.not_mem_nil, or_false] at mem
  rcases mem with (((rfl | rfl | rfl | rfl | rfl) | mem) | mem) | mem
  · exact proper_stringField _ _
  · exact proper_stringField _ _
  · exact proper_stringField _ _
  · exact proper_stringField _ _
  · refine ⟨whole_chars _, v.schemaVersion.natAbs, ?_⟩
    rw [intLiteral, if_neg (by omega)]
  · exact proper_optionalField _ _ _ mem
  · exact proper_optionalField _ _ _ mem
  · exact proper_optionalField _ _ _ mem

/-! ### The Go server -/

theorem goDecode_marshal (version : 0 ≤ v.schemaVersion) :
    goDecode v.marshal = some (.obj v.members, []) := by
  rw [goDecode, RouteValue.marshal, Utf8.runeText_encode]
  exact (JsonText.read_write (RouteValue.doc_proper version)).trans (by rw [v.doc_legible])

/-! ### The members -/

/-- What a lookup by name finds among the members. -/
structure Lookups {α : Type} (find : String → Option α) (text : Text → α) (number : Text → α)
    (v : RouteValue) : Prop where
  orgId : find "org_id" = some (text (Utf8.runeText v.orgId))
  siteId : find "site_id" = some (text (Utf8.runeText v.siteId))
  versionId : find "version_id" = some (text (Utf8.runeText v.versionId))
  accessMode : find "access_mode" = some (text (Utf8.runeText v.accessMode))
  schemaVersion : find "schema_version" = some (number (intLiteral v.schemaVersion))
  expiresAt : find "expires_at" = (nonempty v.expiresAt).map fun value => text (Utf8.runeText value)
  planTier : find "plan_tier" = (nonempty v.planTier).map fun value => text (Utf8.runeText value)
  chatId : find "chat_id" = (nonempty v.chatId).map fun value => text (Utf8.runeText value)

theorem RouteValue.lookups_last (v : RouteValue) :
    Lookups (fun name => Doc.last v.members name.toList) (fun text => .str (text.map .char)) .num v := by
  unfold RouteValue.members
  constructor <;> generalize nonempty v.expiresAt = expiresAt <;> generalize nonempty v.planTier = planTier <;>
    generalize nonempty v.chatId = chatId <;> cases expiresAt <;> cases planTier <;> cases chatId <;> rfl

def jsonMember (name : String) (value : Bytes) : String × Json :=
  (name, .str (String.ofList (Utf8.runeText value)))

def RouteValue.json (v : RouteValue) (version : Rat) : List (String × Json) :=
  [jsonMember "org_id" v.orgId, jsonMember "site_id" v.siteId, jsonMember "version_id" v.versionId,
    jsonMember "access_mode" v.accessMode, ("schema_version", .num version)] ++
    ((nonempty v.expiresAt).map (jsonMember "expires_at")).toList ++
    ((nonempty v.planTier).map (jsonMember "plan_tier")).toList ++
    ((nonempty v.chatId).map (jsonMember "chat_id")).toList

theorem RouteValue.lookups_member (v : RouteValue) (version : Rat) :
    Lookups (Json.member (v.json version)) (fun text => .str (String.ofList text)) (fun _ => .num version) v := by
  unfold RouteValue.json
  constructor <;> generalize nonempty v.expiresAt = expiresAt <;> generalize nonempty v.planTier = planTier <;>
    generalize nonempty v.chatId = chatId <;> cases expiresAt <;> cases planTier <;> cases chatId <;> rfl

/-! ### The readers -/

def IsUuid (value : Bytes) : Prop := ∃ id : Edge.Uuid, value = Utf8.encode id.text

/-- What the readers ask of a value, and the writer does not. -/
structure RouteValue.Conforms (dateParse : String → Option Int) (v : RouteValue) : Prop where
  orgId : IsUuid v.orgId
  siteId : IsUuid v.siteId
  versionId : IsUuid v.versionId
  expiresAt : v.expiresAt = [] ∨
    ∃ text, v.expiresAt = Utf8.encode text ∧ (dateParse (String.ofList text)).isSome
  planTier : Utf8.Valid v.planTier
  chatId : v.chatId = [] ∨ IsUuid v.chatId

/-- The Worker's route says what the value does. -/
structure RouteValue.OnWorker (v : RouteValue) (route : Edge.RouteValue) : Prop where
  orgId : Utf8.encode route.orgId.text = v.orgId
  siteId : Utf8.encode route.siteId.text = v.siteId
  versionId : Utf8.encode route.versionId.text = v.versionId
  accessMode : ascii route.accessMode.text = v.accessMode
  expiresAt : Utf8.encode ((route.expiresAt.map String.toList).getD []) = v.expiresAt
  planTier : Utf8.encode (route.planTier.getD []) = v.planTier
  chatId : Utf8.encode ((route.chatId.map Edge.Uuid.text).getD []) = v.chatId

structure RouteValue.OnServer (v out : RouteValue) : Prop where
  orgId : out.orgId = v.orgId
  siteId : out.siteId = v.siteId
  versionId : out.versionId = v.versionId
  accessMode : out.accessMode = v.accessMode
  expiresAt : out.expiresAt = v.expiresAt
  planTier : out.planTier = v.planTier
  chatId : out.chatId = v.chatId

def RouteValue.ReadByWorker (dateParse : String → Option Int) (v : RouteValue) : Prop :=
  ∃ json route, jsonParse v.marshal = some json ∧
    Edge.parseRouteValue dateParse json = some route ∧ v.OnWorker route

def RouteValue.ReadByServer (v : RouteValue) : Prop :=
  ∃ out, Serve.parseRouteValue v.marshal = some out ∧ v.OnServer out

/-- What the writer has checked. -/
structure RouteValue.Checked (v : RouteValue) : Prop where
  orgId : v.orgId ≠ []
  siteId : v.siteId ≠ []
  versionId : v.versionId ≠ []
  accessMode : ∃ mode : Edge.AccessMode, v.accessMode = ascii mode.text
  schemaVersion : 1 ≤ v.schemaVersion ∧ v.schemaVersion ≤ 4
  expiresAt : v.expiresAt = [] ∨ (Rfc3339.parse (Utf8.latin1 v.expiresAt)).isSome

theorem RouteValue.checked (valid : v.validate = .ok ()) : v.Checked := by
  unfold RouteValue.validate at valid
  split at valid
  · cases valid
  split at valid
  · cases valid
  split at valid
  · cases valid
  split at valid
  · cases valid
  split at valid
  · cases valid
  split at valid
  · cases valid
  rename_i org site version mode schema expires
  refine ⟨org, site, version, ?_, ?_, ?_⟩
  · simp only [accessModes, not_not, List.map_cons, List.map_nil, List.mem_cons, List.not_mem_nil,
      or_false] at mode
    rcases mode with same | same | same | same
    · exact ⟨.public, same⟩
    · exact ⟨.password, same⟩
    · exact ⟨.allowlist, same⟩
    · exact ⟨.orgOnly, same⟩
  · simp only [minSchemaVersion, Projection.schemaVersion] at schema
    omega
  · by_cases blank : v.expiresAt = []
    · exact .inl blank
    · refine .inr (Option.isSome_iff_ne_none.mpr fun bad => expires ⟨blank, bad⟩)

/-! ### The Worker -/

section Worker

variable {members : List (String × Json)} {field : String} {text : Text} {version : Rat}

private theorem requiredUuid_iff {id : Edge.Uuid}
    (found : Json.member members field = some (.str (String.ofList text))) :
    Edge.requiredUuid members field = .ok id ↔ id.text = text := by
  rw [Edge.requiredUuid, found]
  simp only [Edge.Uuid.parse?, String.toList_ofList]
  by_cases wf : Edge.isUuid text
  · rw [dif_pos wf]
    refine ⟨fun same => by cases same; rfl, fun same => ?_⟩
    subst same
    rfl
  · rw [dif_neg wf]
    exact ⟨fun same => (by cases same), fun same => absurd id.wf (same ▸ wf)⟩

private theorem parseAccessMode_eq {mode : Edge.AccessMode}
    (found : Json.member members "access_mode" = some (.str mode.text)) :
    Edge.parseAccessMode members = .ok mode := by
  rw [Edge.parseAccessMode, found]
  cases mode <;> rfl

private theorem parseSchemaVersion_eq {n : Int} (range : 1 ≤ n ∧ n ≤ 4)
    (found : Json.member members "schema_version" = some (.num n)) :
    Edge.parseSchemaVersion members = .ok n.toNat := by
  obtain ⟨low, high⟩ := range
  rw [Edge.parseSchemaVersion, found]
  interval_cases n <;> rfl

private theorem present_eq {value : Bytes} (found : Json.member members field =
    (nonempty value).map fun value => .str (String.ofList (Utf8.runeText value))) :
    Edge.present members field =
      (nonempty value).map fun value => .str (String.ofList (Utf8.runeText value)) := by
  rw [Edge.present, found]
  cases nonempty value <;> rfl

private theorem parseExpiresAt_iff {value : Bytes} {expires : Option String}
    (found : Json.member members "expires_at" =
      (nonempty value).map fun value => .str (String.ofList (Utf8.runeText value))) :
    Edge.parseExpiresAt dateParse members = .ok expires ↔
      (value = [] ∧ expires = none) ∨ (value ≠ [] ∧
        expires = some (String.ofList (Utf8.runeText value)) ∧
        (dateParse (String.ofList (Utf8.runeText value))).isSome) := by
  rw [Edge.parseExpiresAt, present_eq found, nonempty]
  by_cases blank : value = []
  · rw [if_pos blank]
    refine ⟨fun same => ?_, ?_⟩
    · cases same
      exact .inl ⟨blank, rfl⟩
    · rintro (⟨-, rfl⟩ | ⟨present, -⟩)
      · rfl
      · exact absurd blank present
  · rw [if_neg blank]
    simp only [Option.map_some]
    cases date : dateParse (String.ofList (Utf8.runeText value)) with
    | none =>
      refine ⟨fun same => (by cases same), ?_⟩
      rintro (⟨empty, -⟩ | ⟨-, -, dated⟩)
      · exact absurd empty blank
      · cases dated
    | some time =>
      refine ⟨fun same => ?_, ?_⟩
      · cases same
        exact .inr ⟨blank, rfl, rfl⟩
      · rintro (⟨empty, -⟩ | ⟨-, rfl, -⟩)
        · exact absurd empty blank
        · rfl

private theorem parsePlanTier_eq {value : Bytes} (found : Json.member members "plan_tier" =
    (nonempty value).map fun value => .str (String.ofList (Utf8.runeText value))) :
    ∃ tier, Edge.parsePlanTier members = .ok tier ∧ tier.getD [] = Utf8.runeText value := by
  rw [Edge.parsePlanTier, present_eq found, nonempty]
  by_cases blank : value = []
  · rw [if_pos blank, blank]
    exact ⟨none, rfl, rfl⟩
  · have text : String.ofList (Utf8.runeText value) ≠ "" := by
      intro same
      have empty := congrArg String.toList same
      rw [String.toList_ofList] at empty
      exact blank (Utf8.runeText_eq_nil.mp empty)
    rw [if_neg blank]
    simp only [Option.map_some, if_neg text, String.toList_ofList]
    exact ⟨_, rfl, rfl⟩

private theorem parseChatId_iff {value : Bytes} {chat : Option Edge.Uuid}
    (found : Json.member members "chat_id" =
      (nonempty value).map fun value => .str (String.ofList (Utf8.runeText value))) :
    Edge.parseChatId members = .ok chat ↔
      (value = [] ∧ chat = none) ∨ (value ≠ [] ∧ ∃ id : Edge.Uuid, chat = some id ∧
        id.text = Utf8.runeText value) := by
  rw [Edge.parseChatId, present_eq found, nonempty]
  by_cases blank : value = []
  · rw [if_pos blank]
    refine ⟨fun same => ?_, ?_⟩
    · cases same
      exact .inl ⟨blank, rfl⟩
    · rintro (⟨-, rfl⟩ | ⟨present, -⟩)
      · rfl
      · exact absurd blank present
  · rw [if_neg blank]
    simp only [Option.map_some, Edge.Uuid.parse?, String.toList_ofList]
    by_cases wf : Edge.isUuid (Utf8.runeText value)
    · rw [dif_pos wf]
      refine ⟨fun same => ?_, ?_⟩
      · cases same
        exact .inr ⟨blank, _, rfl, rfl⟩
      · rintro (⟨empty, -⟩ | ⟨-, id, rfl, same⟩)
        · exact absurd empty blank
        · exact congrArg (fun id => Except.ok (some id)) (Edge.Uuid.ext same.symm)
    · rw [dif_neg wf]
      refine ⟨fun same => (by cases same), ?_⟩
      rintro (⟨empty, -⟩ | ⟨-, id, rfl, same⟩)
      · exact absurd empty blank
      · exact absurd id.wf (same ▸ wf)

private theorem literal_value {n : Int} (range : 1 ≤ n ∧ n ≤ 4) :
    JsonText.nearestDouble (JsonText.literalValue (intLiteral n)) = some (n : Rat) := by
  obtain ⟨low, high⟩ := range
  interval_cases n <;> decide +kernel

/-- The members under the names of the source. -/
private def fields (v : RouteValue) : List (String × Doc) :=
  let text (name : String) (value : Bytes) : String × Doc :=
    (name, .str ((Utf8.runeText value).map .char))
  [text "org_id" v.orgId, text "site_id" v.siteId, text "version_id" v.versionId,
    text "access_mode" v.accessMode, ("schema_version", .num (intLiteral v.schemaVersion))] ++
    ((nonempty v.expiresAt).map (text "expires_at")).toList ++
    ((nonempty v.planTier).map (text "plan_tier")).toList ++ ((nonempty v.chatId).map (text "chat_id")).toList

private theorem fields_members :
    (fields v).map (fun field => (field.1.toList.map .char, field.2)) = v.members ∧
      ((fields v).map (·.1)).Nodup := by
  unfold fields RouteValue.members
  generalize nonempty v.expiresAt = expiresAt
  generalize nonempty v.planTier = planTier
  generalize nonempty v.chatId = chatId
  cases expiresAt <;> cases planTier <;> cases chatId <;> exact ⟨rfl, by simp⟩

private theorem fields_json (range : 1 ≤ v.schemaVersion ∧ v.schemaVersion ≤ 4) :
    (fields v).map (fun field => (field.1, field.2.value)) = v.json v.schemaVersion := by
  have version : (Doc.num (intLiteral v.schemaVersion)).value = .num v.schemaVersion := by
    rw [Doc.value, literal_value range]
    rfl
  have text (value : Bytes) : (Doc.str ((Utf8.runeText value).map .char)).value =
      .str (String.ofList (Utf8.runeText value)) := by
    rw [Doc.value, jsString_chars]
  unfold fields RouteValue.json jsonMember
  generalize nonempty v.expiresAt = expiresAt
  generalize nonempty v.planTier = planTier
  generalize nonempty v.chatId = chatId
  cases expiresAt <;> cases planTier <;> cases chatId <;>
    simp only [List.map_append, List.map_cons, List.map_nil, Option.map_none, Option.map_some, Option.toList,
      version, text]

theorem jsonParse_marshal (range : 1 ≤ v.schemaVersion ∧ v.schemaVersion ≤ 4) :
    jsonParse v.marshal = some (.obj (v.json v.schemaVersion)) := by
  obtain ⟨docs, distinct⟩ := fields_members (v := v)
  have parsed : JsonText.parse (JsonText.write v.doc) = some (.obj v.members) := by
    rw [JsonText.parse_write (RouteValue.doc_proper (by omega)), v.doc_legible]
  have built := Doc.assignAll_distinct [] (by simpa using distinct)
  rw [docs, fields_json range, List.nil_append] at built
  rw [jsonParse, RouteValue.marshal, Utf8.decode_encode, parsed, Option.map_some, Doc.value, built]

private theorem known_fields (version : Rat) :
    (v.json version).find? (fun entry => !Edge.allowedFields.contains entry.1) = none := by
  unfold RouteValue.json
  generalize nonempty v.expiresAt = expiresAt
  generalize nonempty v.planTier = planTier
  generalize nonempty v.chatId = chatId
  cases expiresAt <;> cases planTier <;> cases chatId <;> rfl

private theorem runeText_uuid {value : Bytes} {id : Edge.Uuid} :
    (id.text = Utf8.runeText value ∧ Utf8.encode id.text = value) ↔ value = Utf8.encode id.text := by
  refine ⟨fun same => same.2.symm, fun same => ?_⟩
  rw [same, Utf8.runeText_encode]
  exact ⟨rfl, rfl⟩

private theorem accepts_iff {json : Json} {route : Edge.RouteValue} :
    Edge.parseRouteValue dateParse json = some route ↔
      Edge.parseKVRouteValue dateParse json = .ok route := by
  rw [Edge.parseRouteValue]
  cases Edge.parseKVRouteValue dateParse json <;> simp [Except.toOption]

/-- A value that the Worker accepts has an expiry it can read, or none. -/
theorem worker_dated {json : Json} {route : Edge.RouteValue}
    (range : 1 ≤ v.schemaVersion ∧ v.schemaVersion ≤ 4) (parsed : jsonParse v.marshal = some json)
    (accepted : Edge.parseRouteValue dateParse json = some route) :
    v.expiresAt = [] ∨ (dateParse (String.ofList (Utf8.runeText v.expiresAt))).isSome := by
  have found := v.lookups_member (v.schemaVersion : Rat)
  rw [jsonParse_marshal range, Option.some.injEq] at parsed
  subst parsed
  obtain ⟨-, -, -, -, -, -, expires, -, -⟩ := Edge.parseKVRouteValue_iff.mp (accepts_iff.mp accepted)
  rcases (parseExpiresAt_iff found.expiresAt).mp expires with ⟨blank, -⟩ | ⟨-, -, dated⟩
  · exact .inl blank
  · exact .inr dated

theorem worker_reads_iff (known : ∃ mode : Edge.AccessMode, v.accessMode = ascii mode.text)
    (range : 1 ≤ v.schemaVersion ∧ v.schemaVersion ≤ 4) :
    v.ReadByWorker dateParse ↔ v.Conforms dateParse := by
  have found := v.lookups_member (v.schemaVersion : Rat)
  obtain ⟨mode, sameMode⟩ := known
  have modeFound := found.accessMode
  rw [sameMode, ascii, Utf8.runeText_encode, String.ofList_toList] at modeFound
  obtain ⟨tier, tierRead, tierText⟩ := parsePlanTier_eq found.planTier
  constructor
  · rintro ⟨json, route, parsed, accepted, same⟩
    rw [jsonParse_marshal range, Option.some.injEq] at parsed
    subst parsed
    obtain ⟨-, -, -, -, -, -, expires, plan, chat⟩ :=
      Edge.parseKVRouteValue_iff.mp (accepts_iff.mp accepted)
    refine ⟨⟨_, same.orgId.symm⟩, ⟨_, same.siteId.symm⟩, ⟨_, same.versionId.symm⟩, ?_, ?_, ?_⟩
    · rcases (parseExpiresAt_iff found.expiresAt).mp expires with ⟨blank, -⟩ | ⟨-, read, dated⟩
      · exact .inl blank
      · have text := same.expiresAt
        rw [read, Option.map_some, Option.getD_some, String.toList_ofList] at text
        exact .inr ⟨_, text.symm, dated⟩
    · have text := same.planTier
      rw [tierRead, Except.ok.injEq] at plan
      rwa [← plan, tierText] at text
    · rcases (parseChatId_iff found.chatId).mp chat with ⟨blank, -⟩ | ⟨-, id, read, -⟩
      · exact .inl blank
      · have text := same.chatId
        rw [read, Option.map_some, Option.getD_some] at text
        exact .inr ⟨id, text.symm⟩
  · intro conforms
    obtain ⟨orgId, sameOrg⟩ := conforms.orgId
    obtain ⟨siteId, sameSite⟩ := conforms.siteId
    obtain ⟨versionId, sameVersion⟩ := conforms.versionId
    obtain ⟨expires, expiresRead, expiresText⟩ : ∃ expires,
        Edge.parseExpiresAt dateParse (v.json v.schemaVersion) = .ok expires ∧
          Utf8.encode ((expires.map String.toList).getD []) = v.expiresAt := by
      by_cases blank : v.expiresAt = []
      · exact ⟨none, (parseExpiresAt_iff found.expiresAt).mpr (.inl ⟨blank, rfl⟩), blank.symm⟩
      · obtain ⟨text, read, dated⟩ := conforms.expiresAt.resolve_left blank
        have runes : Utf8.runeText v.expiresAt = text := by rw [read, Utf8.runeText_encode]
        refine ⟨some (String.ofList text), (parseExpiresAt_iff found.expiresAt).mpr (.inr ⟨blank, ?_⟩), ?_⟩
        · rw [runes]
          exact ⟨rfl, dated⟩
        · rw [Option.map_some, Option.getD_some, String.toList_ofList, read]
    obtain ⟨chat, chatRead, chatText⟩ : ∃ chat, Edge.parseChatId (v.json v.schemaVersion) = .ok chat ∧
        Utf8.encode ((chat.map Edge.Uuid.text).getD []) = v.chatId := by
      by_cases blank : v.chatId = []
      · exact ⟨none, (parseChatId_iff found.chatId).mpr (.inl ⟨blank, rfl⟩), blank.symm⟩
      · obtain ⟨id, same⟩ := conforms.chatId.resolve_left blank
        obtain ⟨text, bytes⟩ := runeText_uuid.mpr same
        exact ⟨some id, (parseChatId_iff found.chatId).mpr (.inr ⟨blank, id, rfl, text⟩), bytes⟩
    obtain ⟨orgText, orgBytes⟩ := runeText_uuid.mpr sameOrg
    obtain ⟨siteText, siteBytes⟩ := runeText_uuid.mpr sameSite
    obtain ⟨versionText, versionBytes⟩ := runeText_uuid.mpr sameVersion
    refine ⟨_, ⟨orgId, siteId, versionId, mode, v.schemaVersion.toNat, expires, tier, chat⟩,
      jsonParse_marshal range, accepts_iff.mpr (Edge.parseKVRouteValue_iff.mpr ?_), ?_⟩
    · exact ⟨known_fields _, (requiredUuid_iff found.orgId).mpr orgText,
        (requiredUuid_iff found.siteId).mpr siteText, (requiredUuid_iff found.versionId).mpr versionText,
        parseAccessMode_eq modeFound, parseSchemaVersion_eq range found.schemaVersion,
        expiresRead, tierRead, chatRead⟩
    · refine ⟨orgBytes, siteBytes, versionBytes, sameMode.symm, expiresText, ?_, chatText⟩
      exact tierText ▸ conforms.planTier

theorem read_by_worker_iff (checked : v.Checked) : v.ReadByWorker dateParse ↔ v.Conforms dateParse :=
  worker_reads_iff checked.accessMode checked.schemaVersion

end Worker

/-! ### The Go server -/

private theorem uuidField_eq {members : List (List Glyph × Doc)} {name : String} {value : Bytes}
    (found : Doc.last members name.toList = some (.str ((Utf8.runeText value).map .char)))
    (uuid : IsUuid value) : Serve.uuidField members name = some value := by
  obtain ⟨id, same⟩ := uuid
  obtain ⟨text, bytes⟩ := runeText_uuid.mpr same
  simp only [Serve.uuidField, found, Option.bind_eq_bind, Option.bind_some, Serve.unmarshalString,
    goText_chars, goString, ← text, bytes, id.wf, if_true]

private theorem optionalField_eq {members : List (List Glyph × Doc)} {name : String} {value : Bytes}
    {check : List Glyph → Bool} (found : Doc.last members name.toList =
      (nonempty value).map fun value => .str ((Utf8.runeText value).map .char))
    (passes : value ≠ [] → check ((Utf8.runeText value).map .char) = true) (valid : Utf8.Valid value) :
    Serve.optionalField check members name = some value := by
  rw [Serve.optionalField, found, nonempty]
  by_cases blank : value = []
  · rw [if_pos blank, blank]
    rfl
  · rw [if_neg blank]
    simp only [Option.map_some, Serve.unmarshalString, Option.bind_eq_bind, Option.bind_some,
      passes blank, if_true, goString, goText_chars]
    exact congrArg some valid

private theorem accessModeField_eq {members : List (List Glyph × Doc)} {mode : Edge.AccessMode}
    (found : Doc.last members "access_mode".toList = some (.str (mode.text.toList.map .char))) :
    Serve.accessModeField members = some (ascii mode.text) := by
  have known : accessModes.contains (ascii mode.text) = true := by
    cases mode <;> rfl
  simp only [Serve.accessModeField, found, Option.bind_eq_bind, Option.bind_some, Serve.unmarshalString,
    goString, goText_chars]
  exact if_pos known

private theorem schemaVersionField_eq {members : List (List Glyph × Doc)} {n : Int} (range : 1 ≤ n ∧ n ≤ 4)
    (found : Doc.last members "schema_version".toList = some (.num (intLiteral n))) :
    Serve.schemaVersionField members = some n := by
  obtain ⟨low, high⟩ := range
  have read : parseInt64 (intLiteral n) = some n := by
    interval_cases n <;> rfl
  simp only [Serve.schemaVersionField, found, Option.bind_eq_bind, Option.bind_some, Doc.number, read,
    minSchemaVersion, Projection.schemaVersion]
  exact if_neg (by omega)

private theorem known_members : (v.members.any fun member => goText member.1 ∉ Serve.allowedRouteKeys) = false := by
  unfold RouteValue.members
  generalize nonempty v.expiresAt = expiresAt
  generalize nonempty v.planTier = planTier
  generalize nonempty v.chatId = chatId
  cases expiresAt <;> cases planTier <;> cases chatId <;> rfl

/-- The Go server gives back the very value. -/
theorem serve_reads (checked : v.Checked) (conforms : v.Conforms dateParse) :
    Serve.parseRouteValue v.marshal = some v := by
  have found := v.lookups_last
  obtain ⟨mode, sameMode⟩ := checked.accessMode
  have modeFound := found.accessMode
  rw [sameMode, ascii, Utf8.runeText_encode] at modeFound
  have dated : Utf8.Valid v.expiresAt := by
    rcases conforms.expiresAt with blank | ⟨text, same, -⟩
    · rw [blank]
      rfl
    · exact same ▸ Utf8.valid_encode text
  have expires : Serve.optionalField Serve.isRfc3339 v.members "expires_at" = some v.expiresAt := by
    refine optionalField_eq found.expiresAt (fun present => ?_) dated
    rw [Serve.isRfc3339, goString, goText_chars, dated]
    exact checked.expiresAt.resolve_left present
  have plan : Serve.optionalField (fun _ => true) v.members "plan_tier" = some v.planTier :=
    optionalField_eq found.planTier (fun _ => rfl) conforms.planTier
  have chat : Serve.optionalField (fun value => Edge.isUuid (goText value)) v.members "chat_id" =
      some v.chatId := by
    rcases conforms.chatId with blank | ⟨id, same⟩
    · exact optionalField_eq found.chatId (fun present => absurd blank present) (blank ▸ rfl)
    · refine optionalField_eq found.chatId (fun _ => ?_) (same ▸ Utf8.valid_encode id.text)
      rw [goText_chars, same, Utf8.runeText_encode]
      exact id.wf
  simp only [Serve.parseRouteValue, goDecode_marshal (show 0 ≤ v.schemaVersion by have := checked.schemaVersion; omega),
    Option.bind_eq_bind, Option.bind_some, goMore, JsonText.skipSpace, List.dropWhile_nil, List.head?_nil,
    Option.any_none, Bool.false_eq_true, if_false, known_members,
    uuidField_eq found.orgId conforms.orgId, uuidField_eq found.siteId conforms.siteId,
    uuidField_eq found.versionId conforms.versionId, accessModeField_eq modeFound,
    schemaVersionField_eq checked.schemaVersion found.schemaVersion, expires, plan, chat, ← sameMode]
  rfl

/-- Both readers give back what the writer was given exactly where the value conforms. -/
theorem route_read_iff (valid : v.validate = .ok ()) :
    (v.ReadByWorker dateParse ∧ v.ReadByServer) ↔ v.Conforms dateParse := by
  have checked := RouteValue.checked valid
  refine ⟨fun read => (read_by_worker_iff checked).mp read.1, fun conforms => ?_⟩
  refine ⟨(read_by_worker_iff checked).mpr conforms, v, serve_reads checked conforms, ?_⟩
  exact ⟨rfl, rfl, rfl, rfl, rfl, rfl, rfl⟩

def bareRoute : RouteValue where
  orgId := ascii "o"
  siteId := ascii "s"
  versionId := ascii "v"
  accessMode := ascii "public"
  schemaVersion := 4
  expiresAt := []
  planTier := []
  chatId := []

/-- The writer takes ids that are no UUIDs. -/
theorem bare_route_unread : bareRoute.validate = .ok () ∧
    ∀ dateParse, ¬ (bareRoute.ReadByWorker dateParse ∧ bareRoute.ReadByServer) := by
  have valid : bareRoute.validate = .ok () := rfl
  refine ⟨valid, fun dateParse read => ?_⟩
  obtain ⟨id, same⟩ := ((read_by_worker_iff (RouteValue.checked valid)).mp read.1).orgId
  have text : id.text = ['o'] := (Utf8.encode_injective same).symm
  have wf := id.wf
  rw [text] at wf
  cases wf

def expiringRoute : RouteValue where
  orgId := ascii "11111111-1111-1111-1111-111111111111"
  siteId := ascii "22222222-2222-2222-2222-222222222222"
  versionId := ascii "33333333-3333-3333-3333-333333333333"
  accessMode := ascii "public"
  schemaVersion := 4
  expiresAt := ascii "2026-12-31T23:59:59Z"
  planTier := ascii "free"
  chatId := ascii "44444444-4444-4444-4444-444444444444"

/-- What `Date.parse` gives for a timestamp of this form. -/
def timestamp (text : String) : Option Int := (Rfc3339.parse text.toList).map fun nanos => nanos / 1000000

theorem expiring_route_read :
    (expiringRoute.ReadByWorker timestamp ∧ expiringRoute.ReadByServer) ↔
      expiringRoute.Conforms timestamp :=
  route_read_iff rfl

end Dropway.Projection
