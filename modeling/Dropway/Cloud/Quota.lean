import Dropway.Lib.Utf8

/-! The cloud's policy for the messages of a chat log, a rolling window on the
free tier and a hard cap on others, and for the skills of a folder (AllowN and
RetentionWindow of cloud/quota/quota.go). -/

namespace Dropway.Cloud
open Lib

def tierFree : Text := "free".toList
def tierPro : Text := "pro".toList
def tierBusiness : Text := "business".toList
def tierEnterprise : Text := "enterprise".toList

def freeChatMessagesWindow : Int := 10
def proChatMessagesCap : Int := 100

def freeSkillsPerFolderCap : Int := 10

structure ExceededError where
  current : Int
  max : Int
  planTier : Text
  nextTier : Text
  deriving DecidableEq

/-- A tier may be any string. -/
def effectiveTier (planTier : Text) : Text := if planTier = [] then tierFree else planTier

/-- The cap, with the tier that lifts it; some tiers have none. -/
def chatMessagesCap (planTier : Text) : Option (Int × Text) :=
  if effectiveTier planTier = tierPro then some (proChatMessagesCap, tierBusiness)
  else if effectiveTier planTier = tierBusiness ∨ effectiveTier planTier = tierEnterprise then none
  else some (freeChatMessagesWindow, tierPro)

def allowN (planTier : Text) (current n : Int) : Except ExceededError Unit :=
  match chatMessagesCap planTier with
  | none => .ok ()
  | some (max, nextTier) =>
    if max < current + n then .error ⟨current, max, effectiveTier planTier, nextTier⟩ else .ok ()

def retentionWindow (planTier : Text) : Option Int :=
  if effectiveTier planTier = tierFree then some freeChatMessagesWindow else none

theorem allowN_ok {planTier nextTier : Text} {current n max : Int}
    (capped : chatMessagesCap planTier = some (max, nextTier)) :
    allowN planTier current n = .ok () ↔ current + n ≤ max := by
  simp only [allowN, capped]
  by_cases exceeds : max < current + n
  · rw [if_pos exceeds]
    exact iff_of_false (fun ok => (by cases ok)) (by omega)
  · rw [if_neg exceeds]
    exact iff_of_true rfl (by omega)

/-- Only the free tier has a cap. -/
def skillsPerFolderCap (planTier : Text) : Option (Int × Text) :=
  if effectiveTier planTier = tierFree then some (freeSkillsPerFolderCap, tierPro) else none

/-- One skill more in a folder. -/
def allowSkillPerFolder (planTier : Text) (current : Int) : Except ExceededError Unit :=
  match skillsPerFolderCap planTier with
  | none => .ok ()
  | some (max, nextTier) =>
    if max < current + 1 then .error ⟨current, max, effectiveTier planTier, nextTier⟩ else .ok ()

/-- A folder with so many skills takes no new one. -/
def FolderFull (planTier : Text) (current : Int) : Prop :=
  ∃ cap ∈ skillsPerFolderCap planTier, cap.1 ≤ current

theorem allowSkillPerFolder_ok {planTier : Text} {current : Int} :
    allowSkillPerFolder planTier current = .ok () ↔ ¬ FolderFull planTier current := by
  unfold allowSkillPerFolder FolderFull
  cases skillsPerFolderCap planTier with
  | none =>
    refine iff_of_true rfl ?_
    intro full
    obtain ⟨cap, given, -⟩ := full
    cases given
  | some cap =>
    change (if cap.1 < current + 1 then Except.error (ExceededError.mk current cap.1 (effectiveTier planTier) cap.2)
      else Except.ok ()) = _ ↔ _
    by_cases exceeds : cap.1 < current + 1
    · rw [if_pos exceeds]
      exact iff_of_false (fun ok => by cases ok) (fun small => small ⟨cap, rfl, by omega⟩)
    · rw [if_neg exceeds]
      refine iff_of_true rfl ?_
      intro full
      obtain ⟨other, same, reached⟩ := full
      cases same
      omega

end Dropway.Cloud
