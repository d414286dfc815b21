import PsyBnc.Topology
import PsyBnc.Lib.SlotPrune

/-!
# Removing a subtree (`p_topology.c`)

`removetopology` calls back for the server of every node that it frees.  It looks both nodes up, frees
what is below the item, looks both up again and frees the item; in between the tree is searched while the
item has lost what was below it.
-/

namespace PsyBnc

open CLib

/-- `digremove`: the servers that `removeit` is called for.  The slots are all `NULL` after it. -/
def digremove : TopologyTree → List CStr
  | .nil => []
  | .free rest => digremove rest
  | .used topo below rest => topo.server :: (digremove below ++ digremove rest)

/-- The calls of `removecall` in `removetopology`, in their order. -/
def removecalls (topology : TopologyTree) (node item : CStr) : List CStr :=
  match gettopology topology item, gettopology topology node with
  | some tree, some nodetree =>
      if linkedTo nodetree tree then
        match Slots.node? tree topology with
        | some (topo, linked) => topo.server :: digremove linked
        | none => []
      else []
  | _, _ => []

/-! ## What a tree says -/

/-- The node of a name, with its slots. -/
def serverNode (topology : TopologyTree) (name : CStr) : Option (Topologyt × TopologyTree) :=
  topology.find? (Slots.named Topologyt.server name)

/-- The servers linked to a server, in the order of their slots. -/
def linkedServers (topology : TopologyTree) (name : CStr) : List CStr :=
  match serverNode topology name with
  | some (_, linked) => linked.top.map Topologyt.server
  | none => []

/-- A server and all below it. -/
def subtreeServers (topology : TopologyTree) (name : CStr) : List CStr :=
  match serverNode topology name with
  | some (topo, linked) => topo.server :: servers linked
  | none => []

theorem digremove_eq (topology : TopologyTree) : digremove topology = servers topology := by
  induction topology with
  | nil =>
      rfl
  | free rest ih =>
      exact ih
  | used topo below rest ihb ihr =>
      rw [digremove, ihb, ihr]
      simp [servers]

/-- A tree within the limits of the search: one root, one node for a name, names that fit `digname[60]`,
and nothing below the hundredth node in depth first order. -/
structure WithinLimits (topology : TopologyTree) : Prop where
  root : ∃ topo below, topology = .used topo below .nil
  distinct : (servers topology).Nodup
  short : ∀ name ∈ (servers topology).tail, name.length < 60
  leaf : ∀ x ∈ topology.nodes[99]?, x.2 = 0

/-- So are the trees that come of events as long as lookups answer right. -/
theorem Searchable.withinLimits {me : CStr} {topology : TopologyTree} (hs : Searchable me topology)
    (hroot : Rooted me topology) (hne : topology ≠ Slots.nil) : WithinLimits topology where
  root := by
    rcases hroot.shape with hnil | ⟨below, hshape⟩
    · exact absurd hnil hne
    · exact ⟨_, below, hshape⟩
  distinct := hroot.distinct hs.short
  short := fun name hname => Nat.lt_of_le_of_lt (hs.short name hname) (by decide)
  leaf := hs.leaf

theorem WithinLimits.distinct_labels {topology : TopologyTree} (h : WithinLimits topology) :
    (topology.labels.map Topologyt.server).Nodup :=
  h.distinct

section Lookup

variable {name : CStr} {topology : TopologyTree} {q r : List Dir}

theorem WithinLimits.fits (h : WithinLimits topology) {topo : Topologyt} {below : TopologyTree}
    (heq : topology = .used topo below .nil) (hname : name ∈ servers topology) (hne : topo.server ≠ name) :
    clip 60 name = name := by
  apply clip_eq_self
  apply h.short
  rw [heq, servers_used, List.tail_cons]
  rw [heq, servers_used] at hname
  rcases List.mem_cons.1 hname with hroot | hmem
  · exact absurd hroot.symm hne
  · exact hmem

/-- A server that is there is found. -/
theorem WithinLimits.gettopology (h : WithinLimits topology) (hname : name ∈ servers topology) :
    ∃ q topo linked, PsyBnc.gettopology topology name = some q ∧
      Slots.node? q topology = some (topo, linked) ∧ topo.server = name := by
  rcases h.root with ⟨topo, below, heq⟩
  have hsome : (PsyBnc.gettopology topology name).isSome = true := by
    rw [heq, gettopology_iff, ← heq, Slots.passed_of_leaf h.leaf, ← servers_eq]
    by_cases hroot : topo.server = name
    · exact Or.inl hroot
    · rw [h.fits heq hname hroot]
      exact Or.inr hname
  rcases Option.isSome_iff_exists.1 hsome with ⟨q, hq⟩
  have hget := hq
  rw [heq, PsyBnc.gettopology, strmcmp_decide] at hget
  split at hget
  · next hroot =>
    cases hget
    exact ⟨_, topo, below, hq, by rw [heq]; rfl, of_decide_eq_true hroot⟩
  · next hroot =>
    rcases Slots.node_of_dig (Prod.ext hget rfl) with ⟨topo', linked, hnode, hp⟩
    rw [strmcmp_decide, decide_eq_true_eq,
      h.fits heq hname fun hsame => hroot (decide_eq_true hsame)] at hp
    exact ⟨q, topo', linked, hq, by rw [heq]; exact hnode, hp⟩

/-- Clearing a node does not change the lookup of it, nor of a node above it. -/
theorem gettopology_clear (h : gettopology topology name = some q) (hq : q <+: r) :
    gettopology (topology.modifyAt Slots.clear r) name = some q := by
  cases topology with
  | nil => cases h
  | free rest => cases h
  | used topo below rest =>
      have hkeep : ∃ below' rest', (Slots.used topo below rest).modifyAt Slots.clear r =
          Slots.used topo below' rest' := by
        cases r with
        | nil => exact ⟨_, _, rfl⟩
        | cons d r =>
            cases d with
            | next => exact ⟨_, _, rfl⟩
            | down => exact ⟨_, _, rfl⟩
      have hdig : ∀ p : Topologyt → Bool, ((Slots.used topo below rest).dig p 100).1 = some q →
          (((Slots.used topo below rest).modifyAt Slots.clear r).dig p 100).1 = some q := by
        intro p hp
        rw [Slots.dig_clear (Prod.ext hp rfl) hq]
      rcases hkeep with ⟨below', rest', heq⟩
      rw [gettopology] at h
      rw [heq] at hdig ⊢
      rw [gettopology]
      split
      · next htop => rwa [if_pos htop] at h
      · next htop =>
        rw [if_neg htop] at h
        exact hdig _ h

end Lookup

section Remove

variable {node item : CStr} {topology : TopologyTree}

/-- Both lookups of a server and of one that is linked to it, and where they lead. -/
theorem WithinLimits.ways (h : WithinLimits topology) (hitem : item ∈ linkedServers topology node) :
    ∃ nodetree tree topo linked, PsyBnc.gettopology topology node = some nodetree ∧
      PsyBnc.gettopology topology item = some tree ∧ linkedTo nodetree tree = true ∧
        nodetree <+: tree ∧ Slots.node? tree topology = some (topo, linked) ∧ topo.server = item := by
  have hmem : ∀ {q topo linked}, Slots.node? q topology = some (topo, linked) →
      topo.server ∈ servers topology :=
    fun hq => List.mem_map_of_mem (Slots.mem_labels_of_node hq)
  rw [linkedServers] at hitem
  cases hn : serverNode topology node with
  | none =>
      rw [hn] at hitem
      cases hitem
  | some z =>
      rcases z with ⟨ntopo, nlinked⟩
      rw [hn] at hitem
      rcases List.mem_map.1 hitem with ⟨itopo, htop, rfl⟩
      rcases Slots.exists_node_of_find hn with ⟨p, hp⟩
      rcases Slots.exists_node_of_top htop with ⟨k, ilinked, hk⟩
      have hname : ntopo.server = node := of_decide_eq_true (Slots.mem_labels_of_find hn).2
      -- The item is in the slot number `k` of the node.
      have hway : Slots.node? (p ++ Dir.down :: List.replicate k Dir.next) topology =
          some (itopo, ilinked) := by
        rw [Slots.node_append hp, hk]
      rcases h.gettopology (hname ▸ hmem hp) with ⟨nodetree, topo', linked', hget, hnode, hserver⟩
      rcases h.gettopology (hmem hway) with ⟨tree, topo, linked, hget', hnode', hserver'⟩
      have hsame := Slots.node_unique h.distinct_labels hp hnode (hname.trans hserver.symm)
      have hsame' := Slots.node_unique h.distinct_labels hway hnode' hserver'.symm
      subst hsame hsame'
      refine ⟨_, _, topo, linked, hget, hget', ?_, List.prefix_append _ _, hnode', hserver'⟩
      have hprefix : p ++ [Dir.down] <+: p ++ Dir.down :: List.replicate k Dir.next :=
        ⟨List.replicate k Dir.next, by simp⟩
      simp [linkedTo, hprefix]

/-- The item is taken out of the tree with all that is below it. -/
theorem WithinLimits.removetopology (h : WithinLimits topology)
    (hitem : item ∈ linkedServers topology node) :
    PsyBnc.removetopology topology node item =
      topology.prune (Slots.named Topologyt.server item) := by
  rcases h.ways hitem with ⟨nodetree, tree, topo, linked, hnode, htree, hlinked, hprefix, hat, hserver⟩
  have hitem' := gettopology_clear htree (List.prefix_refl tree)
  have hnode' := gettopology_clear hnode hprefix
  rw [PsyBnc.removetopology, htree, hnode]
  simp only [hlinked, if_true, hitem', hnode']
  rw [Slots.unlink_clear, Slots.unlink_eq_prune h.distinct_labels hat, hserver]

theorem WithinLimits.removecalls (h : WithinLimits topology)
    (hitem : item ∈ linkedServers topology node) :
    PsyBnc.removecalls topology node item = subtreeServers topology item := by
  rcases h.ways hitem with ⟨nodetree, tree, topo, linked, hnode, htree, hlinked, _, hat, hserver⟩
  have hfind := Slots.find_of_node h.distinct_labels hat
  rw [hserver] at hfind
  rw [PsyBnc.removecalls, htree, hnode]
  simp only [hlinked, if_true, hat, subtreeServers, serverNode, hfind, digremove_eq]

/-- A server that is left keeps its links, but for the item. -/
theorem WithinLimits.linkedServers_prune (h : WithinLimits topology) {name : CStr}
    (hname : name ∈ servers (topology.prune (Slots.named Topologyt.server item))) :
    linkedServers (topology.prune (Slots.named Topologyt.server item)) name =
      (linkedServers topology name).filter fun s => decide (s ≠ item) := by
  rcases List.mem_map.1 hname with ⟨topo, hmem, rfl⟩
  rw [linkedServers, serverNode, Slots.find_prune h.distinct_labels hmem, linkedServers, serverNode]
  cases topology.find? (Slots.named Topologyt.server topo.server) with
  | none =>
      rfl
  | some z =>
      simp only [Option.map_some, Slots.top_prune]
      rw [List.filter_map]
      congr 1
      apply List.filter_congr
      intro b _
      simp [Slots.named]

/-- The servers of the subtree and those that are left. -/
theorem WithinLimits.servers_perm (h : WithinLimits topology)
    (hitem : item ∈ linkedServers topology node) :
    (servers topology).Perm (subtreeServers topology item ++
      servers (topology.prune (Slots.named Topologyt.server item))) := by
  rcases h.ways hitem with ⟨_, tree, topo, linked, _, _, _, _, hat, hserver⟩
  have hfind := Slots.find_of_node h.distinct_labels hat
  rw [hserver] at hfind
  have hperm := (Slots.labels_prune h.distinct_labels hfind).map Topologyt.server
  rw [List.map_append, List.map_cons] at hperm
  rw [subtreeServers, serverNode, hfind]
  exact hperm

/-- The subtree of an item that is linked to the node is removed and nothing else; there is one call for
each of its servers, and the servers that are left keep their links in their order. -/
theorem removetopology_subtree (h : WithinLimits topology)
    (hitem : item ∈ linkedServers topology node) :
    removecalls topology node item = subtreeServers topology item ∧
      (subtreeServers topology item).Nodup ∧
        (servers topology).Perm (subtreeServers topology item ++
          servers (removetopology topology node item)) ∧
          ∀ name ∈ servers (removetopology topology node item),
            linkedServers (removetopology topology node item) name =
              (linkedServers topology name).filter fun s => decide (s ≠ item) := by
  have hperm := h.servers_perm hitem
  rw [h.removetopology hitem]
  refine ⟨h.removecalls hitem, ?_, hperm, fun name hname => h.linkedServers_prune hname⟩
  have hnodup := hperm.nodup_iff.1 h.distinct
  exact (List.nodup_append.1 hnodup).1

end Remove

/-- A hub with two servers, the first of which has two servers itself. -/
def hubTree : TopologyTree :=
  .used ⟨ascii "hub", .root⟩
    (.used ⟨ascii "a", .lto⟩
      (.used ⟨ascii "b", .lto⟩ .nil (.free (.used ⟨ascii "c", .lfrom⟩ .nil .nil)))
      (.used ⟨ascii "d", .lto⟩ .nil .nil)) .nil

theorem removetopology_subtree_hub :
    removecalls hubTree (ascii "hub") (ascii "a") = subtreeServers hubTree (ascii "a") ∧
      (subtreeServers hubTree (ascii "a")).Nodup ∧
        (servers hubTree).Perm (subtreeServers hubTree (ascii "a") ++
          servers (removetopology hubTree (ascii "hub") (ascii "a"))) ∧
          ∀ name ∈ servers (removetopology hubTree (ascii "hub") (ascii "a")),
            linkedServers (removetopology hubTree (ascii "hub") (ascii "a")) name =
              (linkedServers hubTree name).filter fun s => decide (s ≠ ascii "a") :=
  removetopology_subtree ⟨⟨_, _, rfl⟩, by decide, by decide, by decide⟩ (by decide)

end PsyBnc
