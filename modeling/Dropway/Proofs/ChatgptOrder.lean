import Dropway.Chatspec.Normalize

/-! The messages of a ChatGPT export come in the order of their creation times, whatever the
order in which the map of its nodes is iterated. -/

namespace Dropway.Chatspec
open Lib

def memberOf (name : String) : Doc → Option Doc
  | .obj members => Doc.last members name.toList
  | _ => none

/-- The parent of a node in the conversation tree. -/
def treeParent (json : Doc) (id : Text) : Option Text := do
  let nodes ← memberOf "mapping" json
  let node ← memberOf (String.ofList id) nodes
  let parent ← memberOf "parent" node
  match parent with
  | .str value => some (goText value)
  | _ => none

inductive Ancestor (parent : Text → Option Text) : Text → Text → Prop
  | parent {above below : Text} (edge : parent below = some above) : Ancestor parent above below
  | further {above between below : Text} (edge : parent below = some between)
      (higher : Ancestor parent above between) : Ancestor parent above below

/-- The nodes of the map that become messages, in the order of an iteration. -/
def timedNodes (mapping : List (Text × Option NodeMessage)) : List (Text × Timed) :=
  mapping.filterMap fun node => (timedNode node.2).map fun timed => (node.1, timed)

def EarlierNode (one two : Text × Timed) : Prop := one.2.NotAfter two.2

instance : DecidableRel EarlierNode := fun one two => inferInstanceAs (Decidable (one.2.NotAfter two.2))

/-- The nodes kept, in the order of their messages; none where the export lists messages. -/
def keptNodes (iteration : Iteration) (doc : ChatgptExport) : List (Text × Timed) :=
  match doc.messages.filterMap exportMessage with
  | [] => (timedNodes (iteration.order doc.mapping)).insertionSort EarlierNode
  | _ => []

/-- One stands in front of the other. -/
def Before {α : Type} (items : List α) (one two : α) : Prop := [one, two].Sublist items

/-- Nodes created at one time say the same. -/
def NoTies (doc : ChatgptExport) : Prop :=
  doc.messages.filterMap exportMessage = [] →
    ∀ one ∈ timedNodes doc.mapping, ∀ two ∈ timedNodes doc.mapping,
      one.2.at_ = two.2.at_ → one.2 = two.2

variable {raw : Text} {json : Doc} {doc : ChatgptExport} {iteration : Iteration}

theorem before_of_pairwise {α : Type} {le : α → α → Prop} {items : List α} {one two : α}
    (sorted : items.Pairwise le) (oneMem : one ∈ items) (twoMem : two ∈ items) (strict : ¬ le two one)
    (apart : one ≠ two) : Before items one two := by
  obtain ⟨front, back, rfl⟩ := List.append_of_mem oneMem
  have across := (List.pairwise_append.mp sorted).2.2
  rcases List.mem_append.mp twoMem with early | late
  · exact absurd (across two early one (List.mem_cons_self ..)) strict
  · rcases List.mem_cons.mp late with rfl | behind
    · exact absurd rfl apart
    · exact ((List.singleton_sublist.mpr behind).cons_cons one).trans (List.sublist_append_right _ _)

instance : Std.Total EarlierNode where
  total one two := le_total one.2.at_ two.2.at_

instance : IsTrans (Text × Timed) EarlierNode where
  trans _ _ _ first second := le_trans (α := Rat) first second

instance : Std.Total Timed.NotAfter where
  total one two := le_total one.at_ two.at_

instance : IsTrans Timed Timed.NotAfter where
  trans _ _ _ first second := le_trans (α := Rat) first second

private theorem timedNodes_snd (mapping : List (Text × Option NodeMessage)) :
    (timedNodes mapping).map Prod.snd = mapping.filterMap fun node => timedNode node.2 := by
  rw [timedNodes, List.map_filterMap]
  congr 1
  funext node
  cases timedNode node.2 <;> rfl

private theorem normalize_kept (listed : doc.messages.filterMap exportMessage = []) :
    ({ doc with mapping := iteration.order doc.mapping } : ChatgptExport).normalize =
      (keptNodes iteration doc).map fun node => chat node.2.role node.2.text := by
  have sorted := List.map_insertionSort (r := EarlierNode) (s := Timed.NotAfter) Prod.snd
    (timedNodes (iteration.order doc.mapping)) (fun _ _ _ _ => Iff.rfl)
  rw [timedNodes_snd] at sorted
  simp only [ChatgptExport.normalize, keptNodes, listed]
  rw [← sorted, List.map_map]
  rfl

theorem keptNodes_sorted (iteration : Iteration) (doc : ChatgptExport) :
    (keptNodes iteration doc).Pairwise EarlierNode := by
  unfold keptNodes
  split
  · exact List.pairwise_insertionSort _ _
  · exact List.Pairwise.nil

private theorem normalizeChatGPT_eq (parsed : JsonText.parse raw = some json)
    (decoded : decodeExport json = some doc) :
    normalizeChatGPT iteration raw =
      .ok ({ doc with mapping := iteration.order doc.mapping } : ChatgptExport).normalize := by
  rw [normalizeChatGPT, parsed, Option.bind_some, decoded]

private theorem timedNodes_perm (iteration : Iteration) (doc : ChatgptExport) :
    (timedNodes (iteration.order doc.mapping)).Perm (timedNodes doc.mapping) :=
  (iteration.perm doc.mapping).filterMap _

/-- Where ties say the same, all iterations sort into the same messages. -/
private theorem sorted_unique (ties : NoTies doc) (listed : doc.messages.filterMap exportMessage = [])
    (iteration other : Iteration) :
    (keptNodes iteration doc).map Prod.snd = (keptNodes other doc).map Prod.snd := by
  have sorted (iteration : Iteration) :
      ((keptNodes iteration doc).map Prod.snd).Pairwise Timed.NotAfter :=
    List.pairwise_map.mpr (keptNodes_sorted iteration doc)
  have perm (iteration : Iteration) :
      ((keptNodes iteration doc).map Prod.snd).Perm ((timedNodes doc.mapping).map Prod.snd) := by
    have kept : keptNodes iteration doc =
        (timedNodes (iteration.order doc.mapping)).insertionSort EarlierNode := by
      simp only [keptNodes, listed]
    rw [kept]
    exact ((List.perm_insertionSort _ _).trans (timedNodes_perm iteration doc)).map _
  refine @List.Perm.eq_of_pairwise _ Timed.NotAfter _ _ ?_ (sorted iteration) (sorted other)
    ((perm iteration).trans (perm other).symm)
  intro one two oneMem twoMem below above
  obtain ⟨node, mem, rfl⟩ := List.mem_map.mp ((perm iteration).mem_iff.mp oneMem)
  obtain ⟨node', mem', rfl⟩ := List.mem_map.mp ((perm other).mem_iff.mp twoMem)
  exact ties listed node mem node' mem' (le_antisymm below above)

/-- By creation time, the same for every iteration but for ties; an ancestor that was created
earlier comes first. -/
theorem chatgpt_order (parsed : JsonText.parse raw = some json) (decoded : decodeExport json = some doc) :
    (doc.messages.filterMap exportMessage = [] → ∀ iteration : Iteration,
      normalizeChatGPT iteration raw =
          .ok ((keptNodes iteration doc).map fun node => chat node.2.role node.2.text) ∧
        (keptNodes iteration doc).Pairwise EarlierNode) ∧
    (NoTies doc → ∀ iteration other : Iteration,
      normalizeChatGPT iteration raw = normalizeChatGPT other raw) ∧
    ∀ iteration : Iteration, ∀ above ∈ keptNodes iteration doc, ∀ below ∈ keptNodes iteration doc,
      Ancestor (treeParent json) above.1 below.1 → above.2.at_ < below.2.at_ →
        Before (keptNodes iteration doc) above below := by
  refine ⟨fun listed iteration => ⟨?_, keptNodes_sorted iteration doc⟩, fun ties iteration other => ?_,
    fun iteration above aboveMem below belowMem _ earlier => ?_⟩
  · rw [normalizeChatGPT_eq parsed decoded, normalize_kept listed]
  · rw [normalizeChatGPT_eq parsed decoded, normalizeChatGPT_eq parsed decoded]
    cases listed : doc.messages.filterMap exportMessage with
    | cons first rest =>
      simp only [ChatgptExport.normalize, listed]
    | nil =>
      have turns (iteration : Iteration) :
          (keptNodes iteration doc).map (fun node => chat node.2.role node.2.text) =
            ((keptNodes iteration doc).map Prod.snd).map fun timed => chat timed.role timed.text := by
        rw [List.map_map]
        rfl
      rw [normalize_kept listed, normalize_kept listed, turns, turns,
        sorted_unique ties listed iteration other]
  · refine before_of_pairwise (keptNodes_sorted iteration doc) aboveMem belowMem (not_le.mpr earlier) ?_
    rintro rfl
    exact absurd earlier (lt_irrefl _)

def backwards : Iteration := ⟨List.reverse, List.reverse_perm⟩

/-- A node of a user's message, as a member of the mapping. -/
def userNode (id parent time said : Text) : Text :=
  '"' :: id ++ "\":\x7b\"parent\":".toList ++ parent ++
    ",\"message\":\x7b\"author\":\x7b\"role\":\"user\"\x7d,".toList ++ time ++
    "\"content\":\x7b\"parts\":[\"".toList ++ said ++ "\"]\x7d\x7d\x7d".toList

def mappingExport (nodes : Text) : Text :=
  "\x7b\"mapping\":\x7b".toList ++ nodes ++ "\x7d\x7d".toList

/-- A root and its child, without creation times. -/
def untimedExport : Text :=
  mappingExport (userNode ['a'] "null".toList [] "one".toList ++
    ',' :: userNode ['b'] "\"a\"".toList [] "two".toList)

/-- The child was created before its root. -/
def earlyChildExport : Text :=
  mappingExport (userNode ['a'] "null".toList "\"create_time\":2,".toList "one".toList ++
    ',' :: userNode ['b'] "\"a\"".toList "\"create_time\":1,".toList "two".toList)

private theorem early_parses : (JsonText.parse earlyChildExport).isSome = true := by decide +kernel

def earlyChild : Doc := (JsonText.parse earlyChildExport).get early_parses

private theorem early_decodes : (decodeExport earlyChild).isSome = true := by decide +kernel

def earlyChildDoc : ChatgptExport := (decodeExport earlyChild).get early_decodes

theorem early_child_order : normalizeChatGPT forwards earlyChildExport =
    .ok ((keptNodes forwards earlyChildDoc).map fun node => chat node.2.role node.2.text) := by
  have listed : earlyChildDoc.messages.filterMap exportMessage = [] := by decide +kernel
  have order := chatgpt_order (Option.some_get early_parses).symm (Option.some_get early_decodes).symm
  exact (order.1 listed forwards).1

/-- Nodes without times come in any order, and a child that is older than its root comes first. -/
theorem chatgpt_disordered :
    ¬ (∀ (raw : Text) (iteration other : Iteration),
        normalizeChatGPT iteration raw = normalizeChatGPT other raw) ∧
      ¬ (∀ (raw : Text) (json : Doc) (doc : ChatgptExport), JsonText.parse raw = some json →
        decodeExport json = some doc → ∀ iteration : Iteration,
          ∀ above ∈ keptNodes iteration doc, ∀ below ∈ keptNodes iteration doc,
            Ancestor (treeParent json) above.1 below.1 → Before (keptNodes iteration doc) above below) := by
  refine ⟨fun same => ?_, fun first => ?_⟩
  · exact absurd (same untimedExport forwards backwards) (by decide +kernel)
  · have kept : keptNodes forwards earlyChildDoc =
        [(['b'], ⟨1, roleUser, "two".toList⟩), (['a'], ⟨2, roleUser, "one".toList⟩)] := by
      decide +kernel
    have edge : Ancestor (treeParent earlyChild) ['a'] ['b'] := .parent (by decide +kernel)
    have order := first earlyChildExport earlyChild earlyChildDoc (Option.some_get early_parses).symm
      (Option.some_get early_decodes).symm forwards
    rw [kept] at order
    have front := order _ (List.mem_cons_of_mem _ (List.mem_singleton_self _)) _ (List.mem_cons_self ..) edge
    unfold Before at front
    exact absurd front (by decide)

end Dropway.Chatspec
