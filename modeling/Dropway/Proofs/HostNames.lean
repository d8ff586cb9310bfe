import Dropway.Api.Projection
import Dropway.Api.Slug
import Dropway.Edge.Route

/-! Host names are read back: the doubled hyphen cannot stand inside a slug, so each host
belongs to one site and none is both canonical and a preview. -/

namespace Dropway.Proofs.HostNames
open Lib Api
open Edge (Uuid isUuid isHex)

def firstLabel (host : Text) : Text := host.takeWhile (· ≠ '.')

structure LegalLabel (label : Text) : Prop where
  filled : 1 ≤ label.length
  short : label.length ≤ 63
  chars : ∀ c ∈ label, c.isAlphanum = true ∨ c = '-'
  opens : label.head? ≠ some '-'
  closes : label.getLast? ≠ some '-'

/-- The host of this site is the host of no other site and of no preview. -/
structure OnlyHost (domain : Text) (org site : Slug) : Prop where
  alone : ∀ org' site' : Slug,
    hostForSite domain org.text site.text = hostForSite domain org'.text site'.text →
      org = org' ∧ site = site'
  apart : ∀ (version : Uuid) (org' site' : Slug),
    hostForSite domain org.text site.text ≠
      previewHostForSite domain version.text org'.text site'.text

private theorem slug_char {c : Char} (slug : isSlugChar c = true) : c.isAlphanum = true := by
  simp only [isSlugChar, Bool.or_eq_true] at slug
  rcases slug with lower | digit
  · have alpha : (c.isUpper || c.isLower) = true := Bool.or_eq_true_iff.mpr (Or.inr lower)
    exact Bool.or_eq_true_iff.mpr (Or.inl alpha)
  · exact Bool.or_eq_true_iff.mpr (Or.inr digit)

private theorem hyphen_outside : isSlugChar '-' = false := rfl

/-- What a label is made of: letters, digits and hyphens, with no hyphen at either end. -/
structure Part (text : Text) : Prop where
  filled : text ≠ []
  chars : ∀ c ∈ text, c.isAlphanum = true ∨ c = '-'
  opens : text.head? ≠ some '-'
  closes : text.getLast? ≠ some '-'

private theorem not_hyphen {c : Char} (slug : isSlugChar c = true) : c ≠ '-' := by
  rintro rfl
  exact absurd slug (by rw [hyphen_outside]; exact Bool.false_ne_true)

private theorem ends_part {text : Text} {first last : Char} (start : isSlugChar first = true)
    (closing : isSlugChar last = true) (head : text.head? = some first)
    (final : text.getLast? = some last) (chars : ∀ c ∈ text, c.isAlphanum = true ∨ c = '-') :
    Part text where
  filled none := by
    rw [none] at head
    cases head
  chars := chars
  opens same := not_hyphen start (Option.some.inj (head.symm.trans same))
  closes same := not_hyphen closing (Option.some.inj (final.symm.trans same))

private theorem pattern_part {text : Text} (pattern : slugPattern text = true) : Part text := by
  cases text with
  | nil => exact absurd pattern Bool.false_ne_true
  | cons first rest =>
    simp only [slugPattern, Bool.and_eq_true] at pattern
    obtain ⟨start, ending⟩ := pattern
    rcases List.eq_nil_or_concat rest with rfl | ⟨front, last, rfl⟩
    · refine ends_part start start rfl rfl ?_
      intro c mem
      rw [List.mem_singleton.mp mem]
      exact Or.inl (slug_char start)
    · rw [List.concat_eq_append, List.getLast?_concat] at ending
      simp only [List.dropLast_concat, Bool.and_eq_true, List.all_eq_true, Bool.or_eq_true,
        decide_eq_true_eq] at ending
      obtain ⟨⟨-, inner⟩, closing⟩ := ending
      rw [List.concat_eq_append]
      refine ends_part start closing rfl ?_ ?_
      · rw [← List.cons_append, List.getLast?_concat]
      · intro c mem
        rw [List.mem_cons, List.mem_append, List.mem_singleton] at mem
        rcases mem with rfl | inside | rfl
        · exact Or.inl (slug_char start)
        · exact (inner c inside).imp_left slug_char
        · exact Or.inl (slug_char closing)

private theorem slug_part (slug : Slug) : Part slug.text := by
  have wf := slug.wf
  simp only [validSlug, Bool.and_eq_true] at wf
  exact pattern_part wf.1

private theorem slug_undoubled (slug : Slug) : Undoubled '-' slug.text where
  single inside := by
    have wf := slug.wf
    simp only [validSlug, Bool.and_eq_true, Bool.not_eq_true', decide_eq_false_iff_not] at wf
    exact wf.2 inside
  closed := (slug_part slug).closes

private theorem Part.join {front back : Text} (first : Part front) (second : Part back) :
    Part (front ++ '-' :: '-' :: back) := by
  refine ⟨fun none => first.filled (List.append_eq_nil_iff.mp none).1, ?_, ?_, ?_⟩
  · intro c mem
    simp only [List.mem_append, List.mem_cons] at mem
    rcases mem with inside | rfl | rfl | inside
    · exact first.chars c inside
    · exact Or.inr rfl
    · exact Or.inr rfl
    · exact second.chars c inside
  · rw [List.head?_append_of_ne_nil _ first.filled]
    exact first.opens
  · rw [List.getLast?_append_of_ne_nil _ (List.cons_ne_nil _ _),
      List.getLast?_cons_of_ne_nil (List.cons_ne_nil _ _), List.getLast?_cons_of_ne_nil second.filled]
    exact second.closes

private theorem Part.legal_iff {text : Text} (part : Part text) :
    LegalLabel text ↔ text.length ≤ 63 :=
  ⟨LegalLabel.short, fun short =>
    ⟨List.length_pos_iff.mpr part.filled, short, part.chars, part.opens, part.closes⟩⟩

private theorem Part.firstLabel {text : Text} (part : Part text) (domain : Text) :
    firstLabel (text ++ '.' :: domain) = text := by
  have inside : ∀ c ∈ text, decide (c ≠ '.') = true := by
    intro c mem
    refine decide_eq_true ?_
    rintro rfl
    rcases part.chars _ mem with letter | hyphen
    · exact absurd letter (by decide)
    · exact absurd hyphen (by decide)
  rw [HostNames.firstLabel, List.takeWhile_append_of_pos inside]
  simp

private theorem host_eq (domain : Text) (org site : Slug) :
    hostForSite domain org.text site.text =
      (org.text ++ '-' :: '-' :: site.text) ++ '.' :: domain := by
  simp [hostForSite]

private theorem label_hex (version : Uuid) :
    (previewLabel version.text).length = 8 ∧ ∀ c ∈ previewLabel version.text, isHex c = true := by
  have wf := version.wf
  simp only [isUuid, Bool.and_eq_true, List.all_eq_true, Bool.or_eq_true, decide_eq_true_eq] at wf
  obtain ⟨lengths, chars⟩ := wf
  have free := Uri.splitOn_free '-' version.text
  have whole : ['-'].intercalate (version.text.splitOn '-') = version.text :=
    List.intercalate_splitOn '-'
  generalize version.text.splitOn '-' = parts at lengths free whole
  cases parts with
  | nil => cases lengths
  | cons first later =>
    obtain ⟨eight, later_lengths⟩ := List.cons.inj lengths
    cases later with
    | nil => cases later_lengths
    | cons second later =>
      have text : version.text = first ++ '-' :: ['-'].intercalate (second :: later) := by
        rw [← whole]
        rfl
      have kept : first.filter (· ≠ '-') = first := by
        apply List.filter_eq_self.mpr
        intro c mem
        exact decide_eq_true fun same => free first (List.mem_cons_self ..) (same ▸ mem)
      have eq : previewLabel version.text = first := by
        have taken : (version.text.filter (· ≠ '-')).take 8 = first := by
          rw [text, List.filter_append, kept]
          exact List.take_left' eight
        unfold previewLabel
        rw [taken]
        cases first with
        | nil => cases eight
        | cons c rest => rfl
      rw [eq]
      refine ⟨eight, fun c mem => ?_⟩
      have inside : c ∈ version.text := by
        rw [text]
        exact List.mem_append_left _ mem
      exact (chars c inside).resolve_right fun same => free first (List.mem_cons_self ..) (same ▸ mem)

private theorem hex_letter {c : Char} (hex : isHex c = true) : c.isAlphanum = true := by
  unfold isHex Uri.hexValue at hex
  change ((decide (c ≥ 'A' ∧ c ≤ 'Z') || (decide (c ≥ 'a') && decide (c ≤ 'z'))) ||
    (decide (c ≥ '0') && decide (c ≤ '9'))) = true
  simp only [Bool.or_eq_true, Bool.and_eq_true, decide_eq_true_eq]
  split at hex
  · rename_i digit
    exact Or.inr digit
  split at hex
  · rename_i upper
    exact Or.inl (Or.inl ⟨upper.1, upper.2.trans (by decide)⟩)
  split at hex
  · rename_i lower
    exact Or.inl (Or.inr ⟨lower.1, lower.2.trans (by decide)⟩)
  · cases hex

private theorem label_free (version : Uuid) : '-' ∉ previewLabel version.text := by
  intro mem
  exact absurd ((label_hex version).2 '-' mem) (by decide)

private theorem label_part (version : Uuid) : Part (previewLabel version.text) where
  filled none := by
    have eight := (label_hex version).1
    rw [none] at eight
    cases eight
  chars c mem := Or.inl (hex_letter ((label_hex version).2 c mem))
  opens same := label_free version (List.mem_of_head? same)
  closes same := label_free version (List.mem_of_getLast? same)

private theorem preview_eq (domain : Text) (version : Uuid) (org site : Slug) :
    previewHostForSite domain version.text org.text site.text =
      (previewLabel version.text ++ '-' :: '-' :: (org.text ++ '-' :: '-' :: site.text)) ++
        '.' :: domain := by
  rw [previewHostForSite, host_eq]
  simp

theorem only_host (domain : Text) (org site : Slug) : OnlyHost domain org site where
  alone org' site' same := by
    simp only [host_eq, List.append_assoc, List.cons_append] at same
    obtain ⟨orgs, rest⟩ := (slug_undoubled org).split (slug_undoubled org') same
    have sites := List.append_cancel_right rest
    cases org
    cases org'
    cases site
    cases site'
    exact ⟨(Slug.mk.injEq ..).mpr orgs, (Slug.mk.injEq ..).mpr sites⟩
  apart version org' site' same := by
    simp only [host_eq, preview_eq, List.append_assoc, List.cons_append] at same
    obtain ⟨-, rest⟩ :=
      (slug_undoubled org).split (Undoubled.of_not_mem (label_free version)) same
    have joined : site.text = org'.text ++ '-' :: '-' :: site'.text := by
      have rest : site.text ++ '.' :: domain = (org'.text ++ '-' :: '-' :: site'.text) ++ '.' :: domain := by
        simpa using rest
      exact List.append_cancel_right rest
    exact (slug_undoubled site).no_join _ _ joined

private theorem host_legal_iff (domain : Text) (org site : Slug) :
    LegalLabel (firstLabel (hostForSite domain org.text site.text)) ↔
      org.text.length + site.text.length ≤ 61 := by
  have part := (slug_part org).join (slug_part site)
  rw [host_eq, part.firstLabel, part.legal_iff]
  simp only [List.length_append, List.length_cons]
  omega

private theorem preview_legal_iff (domain : Text) (version : Uuid) (org site : Slug) :
    LegalLabel (firstLabel (previewHostForSite domain version.text org.text site.text)) ↔
      org.text.length + site.text.length ≤ 51 := by
  have part := (label_part version).join ((slug_part org).join (slug_part site))
  rw [preview_eq, part.firstLabel, part.legal_iff]
  simp only [List.length_append, List.length_cons, (label_hex version).1]
  omega

/-- Canonical hosts stay single legal labels up to 61 characters of slugs, previews up to 51. -/
theorem host_names_iff (domain : Text) (org site : Slug) :
    (OnlyHost domain org site ∧ LegalLabel (firstLabel (hostForSite domain org.text site.text)) ↔
      org.text.length + site.text.length ≤ 61) ∧
    ∀ version : Uuid,
      (OnlyHost domain org site ∧
          LegalLabel (firstLabel (previewHostForSite domain version.text org.text site.text)) ↔
        org.text.length + site.text.length ≤ 51) := by
  refine ⟨?_, fun version => ?_⟩
  · rw [and_iff_right (only_host domain org site)]
    exact host_legal_iff domain org site
  · rw [and_iff_right (only_host domain org site)]
    exact preview_legal_iff domain version org site

def longSlug : Slug := ⟨List.replicate 31 'a', by decide⟩

/-- Two slugs of 31 letters make a label of 64. -/
theorem long_slugs_illegal :
    ¬ ∀ (domain : Text) (org site : Slug),
      LegalLabel (firstLabel (hostForSite domain org.text site.text)) := by
  intro legal
  have short := (host_legal_iff "dropwaycontent.com".toList longSlug longSlug).mp (legal _ _ _)
  exact absurd short (by decide)

end Dropway.Proofs.HostNames
