import Dropway.Edge.Markup
import Dropway.Lib.Lossy
import Dropway.Proofs.BodyTag

/-! What a HEAD request is told of a page's length against the body that a GET request
gets. Markup is cut in next to a tag's end, so it adds its own bytes; the page itself is
decoded and encoded again, which keeps its length only where nothing in it is replaced. -/

namespace Dropway.Edge
open Lib Units

/-- The length that is told is the length of what is sent. -/
def LengthTold (head get : ServeBody) : Prop := head.contentLength = get.body.map List.length

/-- A blob of these bytes. -/
def ResolvedBlob.holding (blob : ResolvedBlob) (bytes : Bytes) : ResolvedBlob :=
  { blob with body := some bytes, contentLength := some bytes.length }

/-- Something is put into the page. -/
def Bannered (s : Setting) (route : RouteValue) (blob : ResolvedBlob) : Prop :=
  isInjectableContentType blob.contentType = true ∧ shouldInjectBanner s.env route blob.servedPath = true ∨
    shouldInjectChatPill route blob.servedPath blob.contentType = true

/-- The badge is put into the embedded page. -/
def Badged (route : RouteValue) (url : Uri.Url) (blob : ResolvedBlob) : Prop :=
  shouldShowEmbedBadge route url = true ∧ isHtml blob.servedPath = true ∧
    isInjectableContentType blob.contentType = true

/-! ### Inserting -/

theorem closing_splits {quote : Option UInt16} {text : Units} {n : Nat} (closes : closing quote text = some n) :
    ∃ front rest, text = front ++ unit '>' :: rest ∧ n = front.length + 1 := by
  induction text generalizing quote n with
  | nil => cases closes
  | cons c text ih =>
    rw [closing] at closes
    by_cases ends : quote = none ∧ c = unit '>'
    · rw [if_pos ends] at closes
      cases closes
      exact ⟨[], text, by rw [ends.2]; rfl, rfl⟩
    · rw [if_neg ends] at closes
      obtain ⟨m, found, rfl⟩ := Option.map_eq_some_iff.mp closes
      obtain ⟨front, rest, rfl, rfl⟩ := ih found
      exact ⟨c :: front, rest, rfl, rfl⟩

/-- Markup is put between two texts. -/
theorem inject_splits (endsWord : Units → Units → Bool) (html markup : Text) :
    ∃ front back, html = front ++ back ∧
      injectAfterBodyOpen endsWord (ofText html) (ofText markup) = ofText (front ++ markup ++ back) := by
  unfold injectAfterBodyOpen
  cases found : bodyOpenEnd endsWord (ofText html) with
  | none => exact ⟨[], html, rfl, by rw [List.nil_append, ofText_append]⟩
  | some at_ =>
    rw [bodyOpenEnd_eq] at found
    obtain ⟨start, -, ends⟩ := Option.bind_eq_some_iff.mp found
    rw [tagEnd, tagEndFrom_eq] at ends
    obtain ⟨n, closes, rfl⟩ := Option.map_eq_some_iff.mp ends
    generalize start + longer ((ofText html).take start) = first at closes
    obtain ⟨tag, rest, split, rfl⟩ := closing_splits closes
    have short : first ≤ (ofText html).length := by
      have long := congrArg List.length split
      simp only [List.length_drop, List.length_append, List.length_cons] at long
      omega
    have whole : ofText html = ((ofText html).take first ++ tag) ++ unit '>' :: rest := by
      rw [List.append_assoc, ← split, List.take_append_drop]
    obtain ⟨front, c, back, same, before, one, after⟩ := ofText_split (by decide) whole
    have cut : first + (tag.length + 1) = ((ofText html).take first ++ tag ++ [unit '>']).length := by
      rw [List.length_append, List.length_append, List.length_take, Nat.min_eq_left short]
      exact (Nat.add_assoc first tag.length 1).symm
    have parts : ofText html = (ofText html).take first ++ tag ++ [unit '>'] ++ rest := by
      rw [List.append_assoc _ [unit '>'] rest]
      exact whole
    have left : ofText (front ++ [c]) = (ofText html).take first ++ tag ++ [unit '>'] := by
      rw [ofText_append, ← before, ofText_cons, one]
      rfl
    generalize (ofText html).take first ++ tag ++ [unit '>'] = through at cut parts left
    refine ⟨front ++ [c], back, by rw [same, List.append_assoc]; rfl, ?_⟩
    have taken : (ofText html).take (first + (tag.length + 1)) = ofText (front ++ [c]) := by
      rw [left, parts, cut, List.take_left]
    have dropped : (ofText html).drop (first + (tag.length + 1)) = ofText back := by
      rw [← after, parts, cut, List.drop_left]
    simp only [taken, dropped, ofText_append]

section Lengths

variable (endsWord : Units → Units → Bool)

/-- Nothing but the markup is added. -/
theorem length_injectMarkup (markup html : Text) :
    (Utf8.encode (injectMarkup endsWord markup html)).length =
      (Utf8.encode html).length + (Utf8.encode markup).length := by
  obtain ⟨front, back, rfl, injected⟩ := inject_splits endsWord html markup
  rw [injectMarkup, injected, toText_ofText]
  simp only [Utf8.encode_append, List.length_append]
  omega

private theorem told_iff {size added body : Nat} (total : body = size + added) {bytes : Nat} :
    some (bytes + added) = some body ↔ size = bytes := by
  rw [Option.some.injEq]
  omega

theorem bannerize_told_iff (s : Setting) (markups : Markups) (route : RouteValue) (blob : ResolvedBlob)
    (bytes : Bytes) :
    LengthTold (bannerize (s.withMarkups endsWord markups) route (blob.holding bytes) true)
        (bannerize (s.withMarkups endsWord markups) route (blob.holding bytes) false) ↔
      (Bannered s route blob → Utf8.LengthKept bytes) := by
  have banner (html : Text) := length_injectMarkup endsWord markups.banner html
  have pill (html : Text) := length_injectMarkup endsWord markups.chatPill html
  have wanted : Bannered s route blob ↔ (shouldInjectBanner s.env route blob.servedPath &&
      isInjectableContentType blob.contentType) = true ∨
        shouldInjectChatPill route blob.servedPath blob.contentType = true := by
    rw [Bannered, Bool.and_eq_true, and_comm]
  rw [wanted, ← Utf8.length_bodyText_iff]
  unfold LengthTold bannerize
  simp only [ResolvedBlob.holding, Setting.withMarkups]
  rcases Bool.eq_false_or_eq_true (shouldInjectBanner s.env route blob.servedPath &&
    isInjectableContentType blob.contentType) with wantBanner | wantBanner
  · rcases Bool.eq_false_or_eq_true (shouldInjectChatPill route blob.servedPath blob.contentType) with
      wantPill | wantPill
    · simp only [wantBanner, wantPill]
      rw [forall_prop_of_true (.inl trivial)]
      refine told_iff ?_
      have first := banner (Utf8.bodyText bytes)
      have both := pill (injectMarkup endsWord markups.banner (Utf8.bodyText bytes))
      simp only [if_true]
      rw [← Nat.add_assoc]
      exact both.trans (congrArg (· + (Utf8.encode markups.chatPill).length) first)
    · simp only [wantBanner, wantPill]
      rw [forall_prop_of_true (.inl trivial)]
      exact told_iff (banner _)
  · rcases Bool.eq_false_or_eq_true (shouldInjectChatPill route blob.servedPath blob.contentType) with
      wantPill | wantPill
    · simp only [wantBanner, wantPill]
      rw [forall_prop_of_true (.inr trivial)]
      refine told_iff ?_
      simp only [if_true, Bool.false_eq_true, if_false]
      rw [Nat.zero_add]
      exact pill _
    · simp only [wantBanner, wantPill]
      exact ⟨fun _ wanted => absurd wanted (by decide), fun _ => rfl⟩

theorem embedBadgeInject_told_iff (s : Setting) (markups : Markups) (route : RouteValue) (url : Uri.Url)
    (blob : ResolvedBlob) (bytes : Bytes) :
    LengthTold (embedBadgeInject (s.withMarkups endsWord markups) route url (blob.holding bytes) true)
        (embedBadgeInject (s.withMarkups endsWord markups) route url (blob.holding bytes) false) ↔
      (Badged route url blob → Utf8.LengthKept bytes) := by
  unfold LengthTold Badged embedBadgeInject
  by_cases badged : (shouldShowEmbedBadge route url && isHtml blob.servedPath &&
      isInjectableContentType blob.contentType) = true
  · have wanted : shouldShowEmbedBadge route url = true ∧ isHtml blob.servedPath = true ∧
        isInjectableContentType blob.contentType = true := by
      simpa only [Bool.and_eq_true, and_assoc] using badged
    have body := length_injectMarkup endsWord markups.embedBadge (Utf8.bodyText bytes)
    rw [← Utf8.length_bodyText_iff, forall_prop_of_true wanted]
    simp only [ResolvedBlob.holding, badged, if_true]
    exact told_iff body
  · have unwanted : ¬ (shouldShowEmbedBadge route url = true ∧ isHtml blob.servedPath = true ∧
        isInjectableContentType blob.contentType = true) := by
      simpa only [Bool.and_eq_true, and_assoc] using badged
    simp only [ResolvedBlob.holding, badged]
    exact ⟨fun _ wanted => absurd wanted unwanted, fun _ => rfl⟩

/-- A HEAD request is told the length of what a GET request gets exactly if the page is
sent as it is or keeps its length when it is decoded and encoded again. -/
theorem head_length_iff (s : Setting) (markups : Markups) (route : RouteValue) (url : Uri.Url) (blob : ResolvedBlob)
    (bytes : Bytes) :
    (LengthTold (bannerize (s.withMarkups endsWord markups) route (blob.holding bytes) true)
        (bannerize (s.withMarkups endsWord markups) route (blob.holding bytes) false) ↔
      (Bannered s route blob → Utf8.LengthKept bytes)) ∧
    (LengthTold (embedBadgeInject (s.withMarkups endsWord markups) route url (blob.holding bytes) true)
        (embedBadgeInject (s.withMarkups endsWord markups) route url (blob.holding bytes) false) ↔
      (Badged route url blob → Utf8.LengthKept bytes)) :=
  ⟨bannerize_told_iff endsWord s markups route blob bytes,
    embedBadgeInject_told_iff endsWord s markups route url blob bytes⟩

end Lengths
/-! ### A page with a byte order mark -/

def freeSetting : Setting :=
  { rt := { jsonParse := fun _ => none, dateParse := fun _ => none, localeLe := fun _ _ => true,
            urlParse := fun _ => none }
    jose := { importJWK := fun _ => false, jwtVerify := fun _ _ _ => none }
    pages := default
    env :=
      { routes := fun _ => .ok none, bucket := fun _ => none, edgeJwksUrl := none, appAuthzUrl := none,
        rateLimiter := none, limits := none, revoked := none, rateLimitMax := none, rateLimitWindowSeconds := none,
        attributionBanner := some "true".toList }
    cache := true, fetchImpl := fun _ => none, now := 0, gateNow := 0 }

def freeRoute : RouteValue :=
  let id : Uuid := ⟨"11111111-1111-4111-8111-111111111111".toList, by decide⟩
  { orgId := id, siteId := id, versionId := id, accessMode := .public, schemaVersion := 4, expiresAt := none,
    planTier := some "free".toList, chatId := none }

def markedBlob : ResolvedBlob :=
  { servedPath := "index.html".toList, contentType := some "text/html; charset=utf-8", body := none }

def markedPage : Bytes := Utf8.byteOrderMark ++ Utf8.encode "<p>hi</p>".toList

theorem marked_page_longer : ¬ ∀ (endsWord : Units → Units → Bool) (s : Setting) (markups : Markups)
    (route : RouteValue) (blob : ResolvedBlob) (bytes : Bytes),
    LengthTold (bannerize (s.withMarkups endsWord markups) route (blob.holding bytes) true)
      (bannerize (s.withMarkups endsWord markups) route (blob.holding bytes) false) := by
  intro told
  have same := told (fun _ _ => false) freeSetting ⟨[], [], []⟩ freeRoute markedBlob markedPage
  have bannered : Bannered freeSetting freeRoute markedBlob := .inl ⟨by decide +kernel, by decide +kernel⟩
  exact absurd ((bannerize_told_iff _ _ _ _ _ _).mp same bannered) (by decide +kernel)

end Dropway.Edge
