import PsyBnc.Lib.Run
import PsyBnc.Lib.SlotTree
import PsyBnc.PString

/-!
# The topology

The linked bouncers form a tree with the own name at its root.  `gettopology` searches it in depth
first order, for the first 59 bytes of a name and with a budget of 100 nodes.
-/

namespace PsyBnc

open CLib

inductive TopologyLink where
  | root
  | lto
  | lfrom
  deriving DecidableEq, Repr

/-- `struct topologyt` without the array `linked`. -/
structure Topologyt where
  server : CStr
  linktype : TopologyLink
  deriving DecidableEq, Repr

/-- The tree, or `NULL`. -/
abbrev TopologyTree := CLib.Slots Topologyt

/-- `gettopology`, with a way to the node as its address. -/
def gettopology (topology : TopologyTree) (name : CStr) : Option (List Dir) :=
  match topology with
  | .used topo _ _ =>
      if strmcmp topo.server name then some []
      else (topology.dig (fun topo => strmcmp topo.server (clip 60 name)) 100).1
  | _ => none

/-- `addtopology`. -/
def addtopology (me : CStr) (topology : TopologyTree) (source target : CStr) : TopologyTree :=
  let topology : TopologyTree :=
    match topology with
    | .nil => .used ⟨clip 64 me, .root⟩ .nil .nil
    | topology => topology
  match gettopology topology source, gettopology topology target with
  | none, some b => topology.modifyAt (Slots.attach ⟨clip 64 source, .lfrom⟩ 100) b
  | some a, none => topology.modifyAt (Slots.attach ⟨clip 64 target, .lto⟩ 100) a
  | _, _ => topology

/-- The node `tree` is in a slot of `nodetree`. -/
def linkedTo (nodetree tree : List Dir) : Bool :=
  decide (nodetree ++ [Dir.down] <+: tree) && (tree.drop (nodetree.length + 1)).all (· == Dir.next)

/-- `removetopology`: the node `item` below `node`, with all that is below it. -/
def removetopology (topology : TopologyTree) (node item : CStr) : TopologyTree :=
  match gettopology topology item, gettopology topology node with
  | some tree, some nodetree =>
      let topology := if linkedTo nodetree tree then topology.modifyAt Slots.clear tree else topology
      match gettopology topology item, gettopology topology node with
      | some tree, some nodetree =>
          if linkedTo nodetree tree then topology.modifyAt Slots.unlink tree else topology
      | _, _ => topology
  | _, _ => topology

/-- What links tell. -/
inductive TopologyEvent where
  | add (source target : CStr)
  | remove (node item : CStr)

def topologyStep (me : CStr) (topology : TopologyTree) : TopologyEvent → Option TopologyTree
  | .add source target => some (addtopology me topology source target)
  | .remove node item => some (removetopology topology node item)

/-! ## Lookups -/

/-- The names of all servers in the tree. -/
def servers (topology : TopologyTree) : List CStr := topology.labels.map Topologyt.server

/-- One node for a name, the own name at the root, and a lookup finds what is there. -/
structure Correct (me : CStr) (topology : TopologyTree) : Prop where
  distinct : (servers topology).Nodup
  root : ∀ name ∈ (servers topology).head?, name = me
  lookup : ∀ name, (gettopology topology name).isSome = true ↔ name ∈ servers topology

/-- The names of the servers have at most 58 bytes, the own name at most 63 but not 59, and the
hundredth node in depth first order has nothing below it. -/
structure Searchable (me : CStr) (topology : TopologyTree) : Prop where
  own : topology ≠ Slots.nil → me.length < 64 ∧ me.length ≠ 59
  short : ∀ name ∈ (servers topology).tail, name.length ≤ 58
  leaf : ∀ x ∈ topology.nodes[99]?, x.2 = 0

/-- What holds of the tree as long as lookups find what is there; a name that was cut off when it was
stored can be there twice. -/
structure Rooted (me : CStr) (topology : TopologyTree) : Prop where
  shape : topology = Slots.nil ∨
    ∃ below, topology = Slots.used ⟨clip 64 me, .root⟩ below Slots.nil
  distinct : (∀ name ∈ (servers topology).tail, name.length ≤ 58) → (servers topology).Nodup
  fits : ∀ name ∈ servers topology, name.length ≤ 63

section Lookup

variable {me name : CStr} {topology : TopologyTree}

theorem strmcmp_decide (one two : CStr) : strmcmp one two = decide (one = two) := by
  by_cases h : one = two
  · rw [decide_eq_true h]
    exact strmcmp_iff.2 h
  · rw [decide_eq_false h]
    exact Bool.eq_false_iff.2 fun heq => h (strmcmp_iff.1 heq)

/-- A lookup below the root finds the first 59 bytes of a name, among the nodes that are visited. -/
theorem gettopology_iff {topo : Topologyt} {below rest : TopologyTree} (name : CStr) :
    (gettopology (.used topo below rest) name).isSome = true ↔
      topo.server = name ∨
        clip 60 name ∈ (Slots.passed (Slots.used topo below rest).nodes 99).map fun x => x.1.server := by
  rw [gettopology, strmcmp_decide]
  by_cases hroot : topo.server = name
  · simp [hroot]
  · have hbudget : (100 : Int) = ((99 : Nat) : Int) + 1 := rfl
    have hdig := (Slots.dig_spec (fun topo : Topologyt => strmcmp topo.server (clip 60 name))
      (.used topo below rest) 100).1
    rw [hbudget, Slots.visited_eq, ← hbudget] at hdig
    simp only [hroot, decide_false, Bool.false_eq_true, if_false, false_or]
    rw [hdig, List.mem_map]
    constructor
    · rintro ⟨x, hx, heq⟩
      exact ⟨x, hx, strmcmp_iff.1 heq⟩
    · rintro ⟨x, hx, heq⟩
      exact ⟨x, hx, strmcmp_iff.2 heq⟩

theorem servers_used (topo : Topologyt) (below : TopologyTree) :
    servers (.used topo below .nil) = topo.server :: servers below := by
  simp [servers]

theorem servers_eq (topology : TopologyTree) :
    servers topology = topology.nodes.map fun x => x.1.server := by
  rw [servers, Slots.labels, List.map_map]
  rfl

/-- A tree whose names are short, and where the search does not stop early, answers right. -/
theorem Searchable.correct (h : Searchable me topology) (hrooted : Rooted me topology) :
    Correct me topology := by
  rcases hrooted.shape with rfl | ⟨below, rfl⟩
  · exact ⟨List.nodup_nil, by simp [servers], by simp [gettopology, servers]⟩
  have hown := h.own (by simp)
  have hme : clip 64 me = me := clip_eq_self hown.1
  have hshort := h.short
  rw [servers_used, List.tail_cons] at hshort
  refine ⟨hrooted.distinct h.short, by simp [servers_used, hme], fun name => ?_⟩
  rw [gettopology_iff, Slots.passed_of_leaf h.leaf, ← servers_eq, servers_used, hme, List.mem_cons,
    List.mem_cons]
  have hclip : clip 60 name = name ∨ (clip 60 name).length = 59 := by
    by_cases hlen : name.length < 60
    · exact Or.inl (clip_eq_self hlen)
    · right
      rw [clip, List.length_take]
      omega
  constructor
  · rintro (rfl | hroot | hbelow)
    · exact Or.inl rfl
    · rcases hclip with hsame | hlong
      · rw [← hsame]
        exact Or.inl hroot
      · rw [hroot] at hlong
        exact absurd hlong hown.2
    · rcases hclip with hsame | hlong
      · rw [← hsame]
        exact Or.inr hbelow
      · have hlen := hshort _ hbelow
        omega
  · rintro (rfl | hbelow)
    · exact Or.inl rfl
    · have hlen := hshort _ hbelow
      rw [clip_eq_self (show name.length < 60 by omega)]
      exact Or.inr (Or.inr hbelow)

/-- When a lookup answers right for every name, the tree is searchable. -/
theorem Correct.searchable (h : Correct me topology) (hrooted : Rooted me topology) :
    Searchable me topology := by
  rcases hrooted.shape with rfl | ⟨below, rfl⟩
  · exact ⟨fun hno => absurd rfl hno, by simp [servers], by simp [Slots.nodes]⟩
  have hme : clip 64 me = me := h.root _ (by simp [servers_used])
  rw [hme] at h hrooted ⊢
  have hlookup := h.lookup
  have hdistinct := h.distinct
  have hfits := hrooted.fits
  simp only [gettopology_iff] at hlookup
  rw [servers_used] at hlookup hdistinct hfits
  -- a name of 59 bytes answers for longer ones that are not there
  have hnever : ∀ name : CStr, name.length = 59 →
      name ∉ (Slots.passed (Slots.used ⟨me, .root⟩ below Slots.nil).nodes 99).map
        fun x => x.1.server := by
    intro name hlen hmem
    have hpad : clip 60 (name ++ List.replicate 64 120) = name := by
      rw [clip, List.take_append_of_le_length (by omega), List.take_of_length_le (by omega)]
    have hfound : name ++ List.replicate 64 120 ∈ me :: servers below := by
      rw [← hlookup, hpad]
      exact Or.inr hmem
    have hlong := hfits _ hfound
    rw [List.length_append, List.length_replicate] at hlong
    omega
  -- Every server below the root is visited, so its name is short.
  have hvisited : ∀ name ∈ servers below, clip 60 name ∈
      (Slots.passed (Slots.used ⟨me, .root⟩ below Slots.nil).nodes 99).map fun x => x.1.server := by
    intro name hmem
    rcases (hlookup name).2 (List.mem_cons_of_mem _ hmem) with rfl | hfound
    · exact absurd hmem (List.nodup_cons.1 hdistinct).1
    · exact hfound
  have hshort : ∀ name ∈ servers below, name.length ≤ 58 := by
    intro name hmem
    have hfound := hvisited name hmem
    by_cases hlen : name.length ≤ 58
    · exact hlen
    · have hclip : (clip 60 name).length = 59 := by
        rw [clip, List.length_take]
        omega
      exact absurd hfound (hnever _ hclip)
  refine ⟨fun _ => ⟨?_, ?_⟩, ?_, ?_⟩
  · rw [← hme]
    exact lt_of_le_of_lt (List.length_take_le _ _) (by decide)
  · intro hlen
    apply hnever me hlen
    exact List.mem_map.2 ⟨_, List.mem_append_left _ List.mem_cons_self, rfl⟩
  · rw [servers_used, List.tail_cons]
    exact hshort
  · -- the node behind the one that exhausts the budget is not visited, and nobody else has its name
    intro x hx
    by_contra hbelow
    rw [Option.mem_def] at hx
    have hle := Slots.below_le hx
    have hnext : 99 + 1 < (Slots.used ⟨me, .root⟩ below Slots.nil).nodes.length := by omega
    rcases (⟨_, List.getElem?_eq_getElem hnext⟩ : ∃ y,
      (Slots.used ⟨me, .root⟩ below Slots.nil).nodes[99 + 1]? = some y) with ⟨y, hy⟩
    have hnames : (servers (Slots.used ⟨me, .root⟩ below Slots.nil)).Nodup := h.distinct
    rw [servers_eq] at hnames
    have hskipped := Slots.passed_skips hnames hx hbelow hy
    have hmem : y.1.server ∈ servers below := by
      rw [Slots.nodes, List.getElem?_cons_succ, Slots.nodes, List.append_nil] at hy
      rw [servers_eq]
      exact List.mem_map.2 ⟨y, List.mem_of_getElem? hy, rfl⟩
    have hlen := hshort _ hmem
    have hfound := hvisited _ hmem
    rw [clip_eq_self (show y.1.server.length < 60 by omega)] at hfound
    exact hskipped hfound

/-- Exactly the searchable trees answer right. -/
theorem correct_iff_searchable (h : Rooted me topology) :
    Correct me topology ↔ Searchable me topology :=
  ⟨fun hcorrect => hcorrect.searchable h, fun hsearchable => hsearchable.correct h⟩

end Lookup

/-! ## Runs -/

section Runs

variable {me : CStr} {topology : TopologyTree}

theorem length_clip_lt (n : Nat) (s : CStr) (hn : 0 < n) : (clip n s).length < n := by
  rw [clip, List.length_take]
  omega

/-- A server is attached, whose name is not there unless it was cut off. -/
theorem Rooted.attach (h : Rooted me topology) (hdistinct : (servers topology).Nodup)
    (topo : Topologyt) (hlength : topo.server.length ≤ 63)
    (hnew : topo.server.length ≤ 58 → topo.server ∉ servers topology) (q : List Dir) :
    Rooted me (topology.modifyAt (Slots.attach topo 100) q) := by
  have hnames : servers (topology.modifyAt (Slots.attach topo 100) q) = servers topology ∨
      (servers (topology.modifyAt (Slots.attach topo 100) q)).Perm (topo.server :: servers topology) := by
    rcases Slots.labels_attach topo 100 q topology with hsame | hperm
    · left
      rw [servers, hsame, servers]
    · right
      exact hperm.map Topologyt.server
  rcases h.shape with rfl | ⟨below, rfl⟩
  · -- there is nothing to attach it to
    have hnil : (Slots.nil : TopologyTree).modifyAt (Slots.attach topo 100) q = Slots.nil := by
      cases q with
      | nil => rfl
      | cons d q => cases d <;> rfl
    rw [hnil]
    exact h
  have hshape : ∃ below', (Slots.used (α := Topologyt) ⟨clip 64 me, .root⟩ below .nil).modifyAt
      (Slots.attach topo 100) q = .used ⟨clip 64 me, .root⟩ below' .nil :=
    Slots.modifyAt_root rfl fun _ => ⟨_, rfl⟩
  rcases hshape with ⟨below', hshape⟩
  rw [hshape, servers_used, servers_used] at hnames
  rw [servers_used] at hdistinct hnew
  rw [hshape]
  refine ⟨Or.inr ⟨below', rfl⟩, fun hshort => ?_, fun name hname => ?_⟩
  · rw [servers_used, List.tail_cons] at hshort
    rw [servers_used]
    rcases hnames with hsame | hperm
    · rw [hsame]
      exact hdistinct
    · have htail : (servers below').Perm (topo.server :: servers below) := by
        apply (List.perm_cons (clip 64 me)).1
        exact hperm.trans (List.Perm.swap _ _ _)
      rw [hperm.nodup_iff]
      exact List.nodup_cons.2
        ⟨hnew (hshort _ (htail.mem_iff.2 List.mem_cons_self)), hdistinct⟩
  · have hfits := h.fits
    rw [servers_used] at hname hfits
    rcases hnames with hsame | hperm
    · rw [hsame] at hname
      exact hfits name hname
    · rcases List.mem_cons.1 (hperm.mem_iff.1 hname) with rfl | hname
      · exact hlength
      · exact hfits name hname

/-- Servers are taken away, but not the root. -/
theorem Rooted.remove (h : Rooted me topology) (hdistinct : (servers topology).Nodup)
    {f : TopologyTree → TopologyTree} (hnil : f Slots.nil = Slots.nil)
    (hf : ∀ s, (f s).labels.Sublist s.labels) {q : List Dir} (hq : q ≠ []) :
    Rooted me (topology.modifyAt f q) ∧ (servers (topology.modifyAt f q)).Nodup := by
  have hnames : (servers (topology.modifyAt f q)).Sublist (servers topology) :=
    (Slots.labels_sublist hf q topology).map Topologyt.server
  have hafter := hdistinct.sublist hnames
  refine ⟨⟨?_, fun _ => hafter, fun name hname => h.fits name (hnames.subset hname)⟩, hafter⟩
  rcases h.shape with rfl | ⟨below, rfl⟩
  · left
    cases q with
    | nil => exact absurd rfl hq
    | cons d q => cases d <;> rfl
  · right
    exact Slots.modifyAt_root hnil fun heq => absurd heq hq

theorem linkedTo_ne_nil {nodetree tree : List Dir} (h : linkedTo nodetree tree = true) : tree ≠ [] := by
  rintro rfl
  rw [linkedTo, Bool.and_eq_true, decide_eq_true_eq] at h
  have hlen := h.1.length_le
  simp at hlen

/-- What `addtopology` starts with. -/
def withRoot (me : CStr) : TopologyTree → TopologyTree
  | .nil => .used ⟨clip 64 me, .root⟩ .nil .nil
  | topology => topology

theorem addtopology_eq (me : CStr) (topology : TopologyTree) (source target : CStr) :
    addtopology me topology source target =
      match gettopology (withRoot me topology) source, gettopology (withRoot me topology) target with
      | none, some b => (withRoot me topology).modifyAt (Slots.attach ⟨clip 64 source, .lfrom⟩ 100) b
      | some a, none => (withRoot me topology).modifyAt (Slots.attach ⟨clip 64 target, .lto⟩ 100) a
      | _, _ => withRoot me topology := by
  cases topology <;> rfl

/-- The tree that `addtopology` works on: what it does not find there is not there. -/
theorem Correct.withRoot (h : Correct me topology) (hrooted : Rooted me topology) :
    Rooted me (withRoot me topology) ∧ (servers (withRoot me topology)).Nodup ∧
      ∀ name, gettopology (withRoot me topology) name = none → name ∉ servers (withRoot me topology) := by
  rcases hrooted.shape with rfl | ⟨below, rfl⟩
  · have hnames : servers (PsyBnc.withRoot me Slots.nil) = [clip 64 me] := rfl
    have hlen := length_clip_lt 64 me (by decide)
    refine ⟨⟨Or.inr ⟨Slots.nil, rfl⟩, fun _ => ?_, fun name hname => ?_⟩, ?_, fun name hnone => ?_⟩
    · exact List.nodup_singleton _
    · rw [hnames, List.mem_singleton] at hname
      rw [hname]
      omega
    · exact List.nodup_singleton _
    · rw [hnames, List.mem_singleton]
      rintro rfl
      simp [PsyBnc.withRoot, gettopology, strmcmp_decide] at hnone
  · refine ⟨hrooted, h.distinct, fun name hnone hmem => ?_⟩
    have hfound := (h.lookup name).2 hmem
    rw [PsyBnc.withRoot] at hnone
    · rw [hnone] at hfound
      cases hfound
    · simp

/-- A name is stored as far as it fits. -/
theorem stored_new {name : CStr} {names : List CStr} (h : name ∉ names) :
    (clip 64 name).length ≤ 63 ∧ ((clip 64 name).length ≤ 58 → clip 64 name ∉ names) := by
  have hlen := length_clip_lt 64 name (by decide)
  refine ⟨Nat.le_of_lt_succ hlen, fun hshort => ?_⟩
  have hname : name.length < 64 := by
    rw [clip, List.length_take] at hshort
    omega
  rw [clip_eq_self hname]
  exact h

theorem Rooted.add (h : Rooted me topology) (hcorrect : Correct me topology) (source target : CStr) :
    Rooted me (addtopology me topology source target) := by
  rcases hcorrect.withRoot h with ⟨hroot, hdistinct, hnew⟩
  rw [addtopology_eq]
  split
  · next b hsource _ =>
    rcases stored_new (hnew source hsource) with ⟨hlength, hstored⟩
    exact hroot.attach hdistinct ⟨clip 64 source, .lfrom⟩ hlength hstored b
  · next a _ htarget =>
    rcases stored_new (hnew target htarget) with ⟨hlength, hstored⟩
    exact hroot.attach hdistinct ⟨clip 64 target, .lto⟩ hlength hstored a
  · exact hroot

theorem Rooted.removetopology (h : Rooted me topology) (hdistinct : (servers topology).Nodup)
    (node item : CStr) : Rooted me (removetopology topology node item) := by
  rw [PsyBnc.removetopology]
  split
  · next tree nodetree _ _ =>
    have hclear : Rooted me (if linkedTo nodetree tree then topology.modifyAt Slots.clear tree
        else topology) ∧ (servers (if linkedTo nodetree tree then topology.modifyAt Slots.clear tree
          else topology)).Nodup := by
      split
      · next hlinked => exact h.remove hdistinct rfl Slots.labels_clear (linkedTo_ne_nil hlinked)
      · exact ⟨h, hdistinct⟩
    simp only
    split
    · split
      · next hlinked =>
        exact (hclear.1.remove hclear.2 rfl Slots.labels_unlink (linkedTo_ne_nil hlinked)).1
      · exact hclear.1
    · exact hclear.1
  · exact h

/-- One event, as long as lookups find what is there. -/
theorem Rooted.step (h : Rooted me topology) (hcorrect : Correct me topology) (e : TopologyEvent) :
    ∃ topology', topologyStep me topology e = some topology' ∧ Rooted me topology' := by
  cases e with
  | add source target => exact ⟨_, rfl, h.add hcorrect source target⟩
  | remove node item => exact ⟨_, rfl, h.removetopology hcorrect.distinct node item⟩

end Runs

/-- In a run of events, lookups answer right all along if and only if the tree is searchable all along. -/
theorem topology_correct_iff (me : CStr) (events : List TopologyEvent) :
    Safe (topologyStep me) (Correct me) Slots.nil events ↔
      Safe (topologyStep me) (Searchable me) Slots.nil events := by
  apply safe_congr (Rooted me)
  · intro s h
    exact correct_iff_searchable h
  · intro s e t h hcorrect ht
    rcases h.step hcorrect e with ⟨t', ht', hrooted⟩
    cases ht.symm.trans ht'
    exact hrooted
  · exact ⟨Or.inl rfl, fun _ => List.nodup_nil, by simp [servers]⟩

/-- A server with a name of 60 bytes is not found, and is attached a second time. -/
theorem topology_long_name :
    let name := List.replicate 60 97
    (∃ topology, runAll (topologyStep (ascii "hub")) Slots.nil [.add (ascii "hub") name] =
        some topology ∧ name ∈ servers topology ∧ gettopology topology name = none) ∧
      ∃ topology, runAll (topologyStep (ascii "hub")) Slots.nil
        [.add (ascii "hub") name, .add (ascii "hub") name] = some topology ∧
          servers topology = [ascii "hub", name, name] :=
  ⟨⟨_, rfl, by decide +kernel, by decide +kernel⟩, ⟨_, rfl, by decide +kernel⟩⟩

end PsyBnc
