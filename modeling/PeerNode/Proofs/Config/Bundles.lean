import PeerNode.Proofs.Text.Trimming
import PeerNode.Config.Basic

/-!
# Bundles

A bundle is one text for several peers.  What it adds to a configuration is determined by where its
delimiters stand: a delimiter parts what is added by the text before it from what is added by the
text behind it, and a text without delimiters adds one peer at most, which is what trimming leaves
of it.  So it does not matter which blank characters stand around the peers of a bundle, or how many
pieces of it are blank.

* `IsEntry`: the texts that can be added.
* `Names`: pieces that name some peers, to be joined to a bundle by `bundleOf`.
* `bundlePieces_append`, `bundlePieces_undelimited`: what is read of a bundle.
* `bundles_add_up`: what a bundle adds to a configuration.
-/

namespace PeerNode
namespace Config

/-- The texts that a bundle can add: they are not empty, no blank characters stand at their ends
and no delimiter in them. -/
structure IsEntry (peer : String) : Prop where
  nonempty : peer ≠ ""
  tight : Text.Tight peer.toList
  undelimited : bundleDelimiter ∉ peer.toList

/-- The pieces of a bundle name some peers: each is a peer with blank characters around it, or has
no other characters at all. -/
inductive Names : List String → List String → Prop
  | nil : Names [] []
  | blank {gap : String} {pieces peers : List String} (hgap : Text.allBlank gap = true)
      (h : Names pieces peers) : Names (gap :: pieces) peers
  | peer {front peer back : String} {pieces peers : List String}
      (hfront : Text.allBlank front = true) (hpeer : IsEntry peer)
      (hback : Text.allBlank back = true) (h : Names pieces peers) :
      Names ((front ++ peer ++ back) :: pieces) (peer :: peers)

/-- The bundle of some pieces, with delimiters between them. -/
def bundleOf (pieces : List String) : String :=
  (String.singleton bundleDelimiter).intercalate pieces

variable {cs : List Char} {pieces peers : List String}

/-! ## What is read -/

/-- **A delimiter parts a bundle.** -/
theorem bundlePieces_append (cs ds : List Char) :
    bundlePieces (cs ++ bundleDelimiter :: ds) = bundlePieces cs ++ bundlePieces ds := by
  rw [bundlePieces, List.splitOn_append_cons_self, List.map_append, List.filter_append]
  rfl

/-- **Without delimiters there is one piece**, unless all is blank. -/
theorem bundlePieces_undelimited (h : bundleDelimiter ∉ cs) :
    bundlePieces cs = if Text.trimChars cs = [] then [] else [Text.trimChars cs] := by
  rw [bundlePieces, List.splitOn_eq_singleton h, List.map_singleton]
  by_cases hblank : Text.trimChars cs = []
  · simp [hblank]
  · simp [hblank]

theorem delimiter_notMem_of_blank (h : ∀ c ∈ cs, Text.isBlank c = true) : bundleDelimiter ∉ cs :=
  fun hmem => absurd (h _ hmem) (by decide)

theorem bundlePieces_blank (h : ∀ c ∈ cs, Text.isBlank c = true) : bundlePieces cs = [] := by
  rw [bundlePieces_undelimited (delimiter_notMem_of_blank h),
    if_pos (Text.trimChars_eq_nil_iff.2 h)]

/-- A peer is read whatever blank characters stand around it. -/
theorem bundlePieces_entry {front back peer : String} (hfront : Text.allBlank front = true)
    (hpeer : IsEntry peer) (hback : Text.allBlank back = true) :
    bundlePieces (front ++ peer ++ back).toList = [peer.toList] := by
  rw [Text.allBlank, List.all_eq_true] at hfront hback
  have hchars : (front ++ peer ++ back).toList = front.toList ++ (peer.toList ++ back.toList) := by
    simp
  have htrim := Text.trimChars_append hfront hpeer.tight hback
  have hnone : bundleDelimiter ∉ front.toList ++ (peer.toList ++ back.toList) := by
    rw [List.mem_append, List.mem_append]
    rintro (hmem | hmem | hmem)
    · exact delimiter_notMem_of_blank hfront hmem
    · exact hpeer.undelimited hmem
    · exact delimiter_notMem_of_blank hback hmem
  have hne : peer.toList ≠ [] := fun h => hpeer.nonempty (String.toList_eq_nil_iff.1 h)
  rw [hchars, bundlePieces_undelimited hnone, htrim, if_neg hne]

theorem bundlePieces_bundleOf_cons (piece : String) (pieces : List String) :
    bundlePieces (bundleOf (piece :: pieces)).toList =
      bundlePieces piece.toList ++ bundlePieces (bundleOf pieces).toList := by
  cases pieces with
  | nil =>
    have hnone : bundlePieces (bundleOf []).toList = [] := bundlePieces_blank (by simp [bundleOf])
    rw [hnone, List.append_nil, bundleOf, String.intercalate_singleton]
  | cons next pieces =>
    rw [bundleOf, String.intercalate_cons_cons, ← bundlePieces_append]
    simp [bundleOf]

/-- **The peers that the pieces name are read**, in their order. -/
theorem Names.bundlePieces_eq (h : Names pieces peers) :
    bundlePieces (bundleOf pieces).toList = peers.map String.toList := by
  induction h with
  | nil => exact bundlePieces_blank (by simp [bundleOf])
  | blank hgap h ih =>
    rw [bundlePieces_bundleOf_cons, ih, bundlePieces_blank (List.all_eq_true.1 hgap),
      List.nil_append]
  | peer hfront hpeer hback h ih =>
    rw [bundlePieces_bundleOf_cons, ih, bundlePieces_entry hfront hpeer hback, List.map_cons,
      List.singleton_append]

theorem names_self (h : ∀ peer ∈ peers, IsEntry peer) : Names peers peers := by
  induction peers with
  | nil => exact .nil
  | cons peer peers ih =>
    have hrest := ih fun p hp => h p (List.mem_cons_of_mem _ hp)
    have hnames : Names (("" ++ peer ++ "") :: peers) (peer :: peers) :=
      .peer rfl (h peer List.mem_cons_self) rfl hrest
    rwa [String.empty_append, String.append_empty] at hnames

/-! ## What can be read -/

theorem Names.isEntry (h : Names pieces peers) : ∀ peer ∈ peers, IsEntry peer := by
  induction h with
  | nil => simp
  | blank hgap h ih => exact ih
  | peer hfront hpeer hback h ih => exact List.forall_mem_cons.2 ⟨hpeer, ih⟩

/-- A piece without delimiters names what trimming leaves of it, if that is anything. -/
theorem Names.exists_cons (hcs : bundleDelimiter ∉ cs) (h : Names pieces peers) :
    ∃ peers', Names (String.ofList cs :: pieces) peers' := by
  obtain ⟨front, back, hfront, hback, hsplit⟩ := Text.exists_padding cs
  have hblank : ∀ {ds : List Char}, (∀ c ∈ ds, Text.isBlank c = true) →
      Text.allBlank (String.ofList ds) = true := by
    intro ds hds
    rw [Text.allBlank, String.toList_ofList, List.all_eq_true]
    exact hds
  by_cases hnone : Text.trimChars cs = []
  · exact ⟨peers, .blank (hblank (Text.trimChars_eq_nil_iff.1 hnone)) h⟩
  · have hentry : IsEntry (String.ofList (Text.trimChars cs)) := by
      refine ⟨?_, ?_, ?_⟩
      · rwa [Ne, ← String.toList_eq_nil_iff, String.toList_ofList]
      · rw [String.toList_ofList]
        exact Text.tight_trimChars cs
      · rw [String.toList_ofList]
        intro hmem
        rw [hsplit] at hcs
        exact hcs (List.mem_append_right _ (List.mem_append_left _ hmem))
    have hnames := h.peer (hblank hfront) hentry (hblank hback)
    rw [← String.ofList_append, ← String.ofList_append, List.append_assoc, ← hsplit] at hnames
    exact ⟨_, hnames⟩

/-- **Every text is a bundle of pieces that name some peers.** -/
theorem exists_names (cs : List Char) : ∃ piece pieces peers,
    (bundleOf (piece :: pieces)).toList = cs ∧ Names (piece :: pieces) peers := by
  by_cases hmem : bundleDelimiter ∈ cs
  · obtain ⟨front, back, hcs, hfront⟩ := List.eq_append_cons_of_mem hmem
    obtain ⟨piece, pieces, peers, hbundle, hnames⟩ := exists_names back
    obtain ⟨peers', hnames'⟩ := hnames.exists_cons hfront
    refine ⟨String.ofList front, piece :: pieces, peers', ?_, hnames'⟩
    rw [bundleOf, String.intercalate_cons_cons, String.toList_append, String.toList_append,
      String.toList_ofList, String.toList_singleton, List.append_assoc, List.singleton_append, hcs]
    exact congrArg (fun ds => front ++ bundleDelimiter :: ds) hbundle
  · obtain ⟨peers, hnames⟩ := Names.nil.exists_cons hmem
    refine ⟨String.ofList cs, [], peers, ?_, hnames⟩
    rw [bundleOf, String.intercalate_singleton, String.toList_ofList]
termination_by cs.length
decreasing_by
  rw [hcs, List.length_append, List.length_cons]
  omega

/-! ## What is added -/

/-- **What the pieces of a bundle name is added**, and nothing else is changed. -/
theorem withBundle_of_names (c : Config) (h : Names pieces peers) :
    c.withBundle (bundleOf pieces) =
      { c with bootstrapPeers := c.bootstrapPeers ++ peers } := by
  have hmap : (peers.map String.toList).map String.ofList = peers := by
    rw [List.map_map]
    exact (List.map_congr_left fun p _ => String.ofList_toList).trans (List.map_id peers)
  rw [withBundle, h.bundlePieces_eq, hmap]

/-- **Two bundles that are joined add up.** -/
theorem withBundle_append (c : Config) (a b : String) :
    c.withBundle (a ++ String.singleton bundleDelimiter ++ b) =
      (c.withBundle a).withBundle b := by
  have hchars : (a ++ String.singleton bundleDelimiter ++ b).toList =
      a.toList ++ bundleDelimiter :: b.toList := by
    simp
  rw [withBundle, hchars, bundlePieces_append, List.map_append, ← List.append_assoc]
  rfl

/-- **Bundles add up.**  A bundle adds peers behind those that a configuration has and changes
nothing else; what it adds are texts that are not empty, have no blank characters at their ends and
no delimiters.  A bundle of two bundles adds what the one adds and then what the other adds.
Whatever peers pieces name, with any blank characters around them and with any blank pieces between
them, the bundle of these pieces adds exactly these peers in this order; so does the bundle of the
peers themselves. -/
theorem bundles_add_up (c : Config) :
    (∀ bundle, ∃ added, (∀ peer ∈ added, IsEntry peer) ∧
      c.withBundle bundle = { c with bootstrapPeers := c.bootstrapPeers ++ added }) ∧
    (∀ a b, c.withBundle (a ++ String.singleton bundleDelimiter ++ b) =
      (c.withBundle a).withBundle b) ∧
    (∀ pieces peers, Names pieces peers →
      c.withBundle (bundleOf pieces) =
        { c with bootstrapPeers := c.bootstrapPeers ++ peers }) ∧
    ∀ peers, (∀ peer ∈ peers, IsEntry peer) →
      c.withBundle (bundleOf peers) = { c with bootstrapPeers := c.bootstrapPeers ++ peers } := by
  refine ⟨fun bundle => ?_, c.withBundle_append, fun pieces peers h => c.withBundle_of_names h,
    fun peers h => c.withBundle_of_names (names_self h)⟩
  obtain ⟨piece, pieces, peers, hbundle, hnames⟩ := exists_names bundle.toList
  refine ⟨peers, hnames.isEntry, ?_⟩
  rw [← String.toList_inj.1 hbundle]
  exact c.withBundle_of_names hnames

/-- A bundle with a blank piece before, between and behind two peers, one of which has blank
characters inside; it adds what the two peers add that are joined, or that come one by one. -/
theorem bundles_add_up_spread :
    let c : Config := { bootstrapPeers := ["p"], nodeName := "n" }
    let added : Config := { bootstrapPeers := ["p", "/a", "b\t b"], nodeName := "n" }
    c.withBundle ";\u00a0/a \n;\u3000 ;b\t b;" = added ∧ c.withBundle "/a;b\t b" = added ∧
      (c.withBundle "/a").withBundle "b\t b" = added ∧ IsEntry "b\t b" := by
  intro c added
  have hfirst : IsEntry "/a" := ⟨by decide, ⟨by rintro _ ⟨⟩; rfl, by rintro _ ⟨⟩; rfl⟩, by decide⟩
  have hsecond : IsEntry "b\t b" :=
    ⟨by decide, ⟨by rintro _ ⟨⟩; rfl, by rintro _ ⟨⟩; rfl⟩, by decide⟩
  have hnames : Names ["", "\u00a0" ++ "/a" ++ " \n", "\u3000 ", "" ++ "b\t b" ++ "", ""]
      ["/a", "b\t b"] :=
    .blank (by decide) <| .peer (by decide) hfirst (by decide) <| .blank (by decide) <|
      .peer (by decide) hsecond (by decide) <| .blank (by decide) .nil
  have hentries : ∀ peer ∈ ["/a", "b\t b"], IsEntry peer := by simp [hfirst, hsecond]
  have hspreadText : bundleOf ["", "\u00a0" ++ "/a" ++ " \n", "\u3000 ", "" ++ "b\t b" ++ "", ""] =
      ";\u00a0/a \n;\u3000 ;b\t b;" := by decide
  have hplainText : bundleOf ["/a", "b\t b"] = "/a;b\t b" := by decide
  obtain ⟨-, hjoined, hspread, hplain⟩ := bundles_add_up c
  have htogether := hplain _ hentries
  rw [hplainText] at htogether
  refine ⟨?_, htogether, (hjoined "/a" "b\t b").symm.trans htogether, hsecond⟩
  rw [← hspreadText]
  exact hspread _ _ hnames

end Config
end PeerNode
