/-
SlopDesk.HostServer.WriteTopology — the workspace a host keeps, and the writes to its
topology.
-/
import SlopDesk.Document.Structure
import SlopDesk.HostServer.Subscriber

/-! # One host document and every client
subscribed to it.

Each client has a channel of its own; what they share is the document. An
intent is decided against it one at a time (`WorkspaceDocument::apply_intent`
under `WorkspaceService::handle`), and a document that changed is offered to
every subscriber before the answer is queued for the one that asked. What
the intent applier makes of a document comes in as the document it would
write, or the status it refuses with.
-/

namespace SlopDesk.HostServer

open SlopDesk.Base
open SlopDesk.Document
open SlopDesk.Wire

/-! ## The topology half -/

/-- `RESERVED_ROOT_FIELDS`: the presets and the session templates. -/
def reservedRootFields : List UInt8 := [3, 4, 5]

/-- `TOPOLOGY_FIELDS`: a pane's kind, title, rename flag, video target and
spawn directory. -/
def topologyFields : List UInt8 := [0, 1, 2, 20, 21]

def isTopology (key : WorkspaceKey) : Bool :=
  match key.kind with
  | 0 => !reservedRootFields.contains key.field
  | 1 | 2 | 4 => true
  | 3 => topologyFields.contains key.field
  | _ => false

/-- Two documents with one topology: the same cells of that half. -/
def SameTopology (a b : HostWorkspaceState) : Prop :=
  ∀ key, isTopology key = true → a.get key = b.get key

/-! ## Documents compared -/

/-- `PartialEq`: documents are equal when their listings are. -/
instance : DecidableEq HostWorkspaceState := fun a b =>
  decidable_of_iff (a.sortedEntries = b.sortedEntries)
    ⟨fun h => by
      rw [← HostWorkspaceState.fromEntries_sortedEntries a, h,
        HostWorkspaceState.fromEntries_sortedEntries],
      fun h => by rw [h]⟩

/-! ## The workspace -/

/-- What the applier makes of an intent. -/
inductive IntentOutcome where
  | applied (written : HostWorkspaceState)
  | rejected (status : UInt8)

/-- A document and its subscribers. -/
structure Workspace where
  document : WorkspaceDocument
  channels : List WorkspaceChannel

/-- One step: a client joins, the host changes the document of itself, an
intent is decided, or one party of one channel moves. -/
inductive WorkspaceOp where
  | join (client : Client)
  | mutate (next : HostWorkspaceState)
  | intent (channel : Nat) (outcome : IntentOutcome)
  | channel (channel : Nat) (op : ChannelOp)

namespace Workspace

def start (document : WorkspaceDocument) : Workspace := ⟨document, []⟩

def bump (w : Workspace) (next : HostWorkspaceState) : Workspace where
  document := w.document.advance next
  channels := w.channels.map fun c => c.bump next

/-- `apply_intent`: only a document that differs is a new version. -/
def applyIntent (w : Workspace) : IntentOutcome → UInt8 × Workspace
  | .applied written =>
    (statusApplied, if written ≠ w.document.state then w.bump written else w)
  | .rejected status => (status, w)

/-- Whether the request ahead on a channel is an intent the host is free to
take. -/
def hasIntent (c : WorkspaceChannel) : Bool :=
  match c.handler, c.uplink with
  | .idle, .intent _ :: _ => true
  | _, _ => false

/-- Whether a step is one party's own. Offers and results come from the
document's callers, and an intent is heard as it is decided. -/
def own (c : WorkspaceChannel) : ChannelOp → Bool
  | .offer _ | .deliverResult _ => false
  | .hear _ => !hasIntent c
  | _ => true

def step (w : Workspace) : WorkspaceOp → Workspace
  | .join client => { w with channels := w.channels ++ [.start w.document client] }
  | .mutate next => w.bump next
  | .intent i outcome =>
    if w.channels[i]?.any hasIntent then
      let (status, w) := w.applyIntent outcome
      { w with channels := w.channels.modify i fun c => c.hear status }
    else w
  | .channel i op =>
    { w with channels := w.channels.modify i fun c => if own c op then c.step op else c }

end Workspace

end SlopDesk.HostServer

/-! # Replacing the topology half of a
document (`write_topology` in `slopdesk-wire/src/document/topology.rs`).

A write clears the topology keys the new topology does not supply and sets
those it does. That this leaves the topology half exactly as supplied, and
nothing else touched, rests on two agreements between the split into halves
(`isTopology`) and the list of what a topology is written as (`entries`):
every entry is in the topology half, and every key of that half names an
object of some topology.
-/

namespace SlopDesk.HostServer

open SlopDesk.Base
open SlopDesk.Document
open SlopDesk.Tree

/-! ## Writing -/

def writeTopology (state : HostWorkspaceState) (topology : WorkspaceTopology) : HostWorkspaceState :=
  let next := topology.entries
  let supplied : BTreeSet WorkspaceKey := .ofList (next.map WorkspaceEntry.key)
  let cleared := state.keys.foldl (fun state key =>
    if isTopology key ∧ ¬ supplied.contains key then (state.setOrClear key none).2 else state) state
  next.foldl (fun state entry => state.set entry.key entry.value) cleared

/-! ## What a topology is written as -/

/-- The tables of specs of a topology: those of its sessions and of its
closed tabs. -/
def specTables (t : WorkspaceTopology) : List (BTreeMap PaneId PaneSpec) :=
  t.tree.sessions.map Session.specs ++ t.closedTabs.map ClosedTab.specs

/-- The object a key addresses is one of the topology. -/
def Names (t : WorkspaceTopology) (key : WorkspaceKey) : Prop :=
  match key.kind with
  | 0 => key.objectId = rootObjectId
  | 1 => key.objectId ∈ t.tree.sessions.map Session.id
  | 2 => key.objectId ∈ t.tabIds
  | 3 => ∃ specs ∈ specTables t, specs.contains key.objectId = true
  | 4 => key.objectId ∈ t.splitIds
  | _ => False

variable {t : WorkspaceTopology} {entry : WorkspaceEntry}

theorem key_of_mem_entryOf {key : WorkspaceKey} {value : Option (List UInt8)} (h : entry ∈ entryOf key value) :
    entry.key = key := by
  cases value with
  | none => simp [entryOf] at h
  | some value =>
    grind [entryOf]

theorem key_of_mem_appendWeights {node : SplitNode} (h : entry ∈ appendWeights node) :
    ∃ id ∈ (layoutOf node).splitIds, entry.key = .splitNode id Field.splitNodeWeight := by
  induction node with
  | leaf id => simp [appendWeights] at h
  | split id axis children ih =>
    rw [appendWeights, appendWeightsAll_eq] at h
    rcases List.mem_cons.mp h with rfl | hbelow
    · exact ⟨id, List.mem_cons_self, rfl⟩
    · obtain ⟨child, hchild, hentry⟩ := List.mem_flatMap.mp hbelow
      obtain ⟨below, hsplit, hkey⟩ := ih child hchild hentry
      refine ⟨below, List.mem_cons_of_mem _ ?_, hkey⟩
      rw [layoutsOf_eq, WorkspaceLayoutNode.splitIdsOf_eq, List.flatMap_map]
      exact List.mem_flatMap.mpr ⟨child, hchild, hsplit⟩

/-- A key a topology is written under: one of the topology half that
addresses an object of it. -/
def Written (t : WorkspaceTopology) (key : WorkspaceKey) : Prop := isTopology key = true ∧ Names t key

theorem written_appendRoot (h : entry ∈ t.appendRoot) : Written t entry.key := by
  simp only [WorkspaceTopology.appendRoot, List.mem_append, List.mem_cons, List.not_mem_nil, or_false] at h
  rcases h with ((rfl | rfl | rfl) | hactive) | hunattached
  · exact ⟨rfl, rfl⟩
  · exact ⟨rfl, rfl⟩
  · exact ⟨rfl, rfl⟩
  · rw [key_of_mem_entryOf hactive]
    exact ⟨rfl, rfl⟩
  · rw [key_of_mem_entryOf hunattached]
    exact ⟨rfl, rfl⟩

theorem key_of_mem_appendSession {s : Session} (h : entry ∈ t.appendSession s) :
    ∃ field, entry.key = .session s.id field := by
  simp only [WorkspaceTopology.appendSession, List.mem_append, List.mem_cons, List.not_mem_nil,
    or_false] at h
  rcases h with (rfl | rfl | rfl | rfl) | hactive
  · exact ⟨_, rfl⟩
  · exact ⟨_, rfl⟩
  · exact ⟨_, rfl⟩
  · exact ⟨_, rfl⟩
  · exact ⟨_, key_of_mem_entryOf hactive⟩

theorem key_of_mem_appendTab {tab : Tab} {owner : SessionId} (h : entry ∈ t.appendTab tab owner) :
    ∃ field, entry.key = .tab tab.id field := by
  simp only [WorkspaceTopology.appendTab, List.mem_append, List.mem_cons, List.not_mem_nil, or_false] at h
  rcases h with (((rfl | rfl | rfl) | hactive) | hzoomed) | harmed
  · exact ⟨_, rfl⟩
  · exact ⟨_, rfl⟩
  · exact ⟨_, rfl⟩
  · exact ⟨_, key_of_mem_entryOf hactive⟩
  · exact ⟨_, key_of_mem_entryOf hzoomed⟩
  · exact ⟨_, key_of_mem_entryOf harmed⟩

theorem key_of_mem_appendPane {id : PaneId} {spec : PaneSpec} (h : entry ∈ t.appendPane id spec) :
    ∃ field ∈ topologyFields, entry.key = .pane id field := by
  simp only [WorkspaceTopology.appendPane, List.mem_append, List.mem_cons, List.not_mem_nil, or_false] at h
  rcases h with (((rfl | rfl) | hrenamed) | hvideo) | hcwd
  · exact ⟨Field.paneKind, by decide, rfl⟩
  · exact ⟨Field.paneTitle, by decide, rfl⟩
  · exact ⟨Field.paneUserRenamed, by decide, key_of_mem_entryOf hrenamed⟩
  · exact ⟨Field.paneVideoTarget, by decide, key_of_mem_entryOf hvideo⟩
  · exact ⟨Field.paneSpawnCwd, by decide, key_of_mem_entryOf hcwd⟩

theorem written_appendPanes {specs : BTreeMap PaneId PaneSpec} (hspecs : specs ∈ specTables t)
    (h : entry ∈ t.appendPanes specs) : Written t entry.key := by
  obtain ⟨⟨id, spec⟩, hmem, hentry⟩ := List.mem_flatMap.mp h
  obtain ⟨field, hfield, hkey⟩ := key_of_mem_appendPane hentry
  have hlookup : specs[id]? = some spec := BTreeMap.mem_toList.mp hmem
  have hcontains : specs.contains id = true := by
    grind
  rw [hkey]
  exact ⟨List.contains_iff_mem.mpr hfield, specs, hspecs, hcontains⟩

theorem written_tab {tab : Tab} {owner : SessionId} (htab : tab ∈ t.allTabs)
    (h : entry ∈ t.appendTab tab owner ++ appendWeights tab.root) : Written t entry.key := by
  have hplace : (tab.id, layoutOf tab.root) ∈ t.outline := List.mem_map_of_mem htab
  rcases List.mem_append.mp h with hcell | hweights
  · obtain ⟨field, hkey⟩ := key_of_mem_appendTab hcell
    rw [hkey]
    refine ⟨rfl, ?_⟩
    change tab.id ∈ t.tabIds
    rw [WorkspaceTopology.tabIds_eq]
    exact List.mem_map_of_mem hplace
  · obtain ⟨id, hid, hkey⟩ := key_of_mem_appendWeights hweights
    rw [hkey]
    exact ⟨rfl, List.mem_flatMap.mpr ⟨_, hplace, hid⟩⟩

/-- Everything a topology is written as is in the topology half, under an
object of it. -/
theorem written_entries (h : entry ∈ t.entries) : Written t entry.key := by
  rcases List.mem_append.mp h with hopen | hclosed
  · rcases List.mem_append.mp hopen with hroot | hsession
    · exact written_appendRoot hroot
    obtain ⟨s, hs, hsession⟩ := List.mem_flatMap.mp hsession
    rcases List.mem_append.mp hsession with hplaced | hpanes
    · rcases List.mem_append.mp hplaced with hcells | htabs
      · obtain ⟨field, hkey⟩ := key_of_mem_appendSession hcells
        rw [hkey]
        exact ⟨rfl, List.mem_map_of_mem hs⟩
      · obtain ⟨tab, htab, hcells⟩ := List.mem_flatMap.mp htabs
        exact written_tab (List.mem_append_left _ (List.mem_flatMap.mpr ⟨s, hs, htab⟩)) hcells
    · exact written_appendPanes (List.mem_append_left _ (List.mem_map_of_mem hs)) hpanes
  · obtain ⟨closed, hclosed, hcells⟩ := List.mem_flatMap.mp hclosed
    rcases List.mem_append.mp hcells with htab | hpanes
    · exact written_tab (List.mem_append_right _ (List.mem_map_of_mem hclosed)) htab
    · exact written_appendPanes (List.mem_append_right _ (List.mem_map_of_mem hclosed)) hpanes

/-! ## What a write leaves -/

theorem get_cleared (p : WorkspaceKey → Prop) [DecidablePred p] (keys : List WorkspaceKey)
    (state : HostWorkspaceState) (key : WorkspaceKey) :
    (keys.foldl (fun state key => if p key then (state.setOrClear key none).2 else state) state).get key =
      if key ∈ keys ∧ p key then none else state.get key := by
  have hcleared := HostWorkspaceState.get_foldl_clear state (keys.filter fun key => decide (p key)) key
  simpa only [List.foldl_filter, decide_eq_true_eq, List.mem_filter] using hcleared

theorem get_foldl_set (list : List WorkspaceEntry) (state : HostWorkspaceState) (key : WorkspaceKey) :
    (list.foldl (fun state entry => state.set entry.key entry.value) state).get key =
      ((HostWorkspaceState.fromEntries list).get key).or (state.get key) := by
  have hset := HostWorkspaceState.get_foldl_set state (list.map fun entry => (entry.key, entry.value)) key
  rw [List.foldl_map] at hset
  rw [hset, HostWorkspaceState.get_fromEntries, HostWorkspaceState.assigned]

theorem get_fromEntries_eq_none {list : List WorkspaceEntry} {key : WorkspaceKey} :
    (HostWorkspaceState.fromEntries list).get key = none ↔ ∀ entry ∈ list, entry.key ≠ key := by
  rw [HostWorkspaceState.get_fromEntries, HostWorkspaceState.assigned, BTreeMap.assigned_eq_none,
    List.forall_mem_map]

/-- After a write a topology key holds what the topology is written as, and
every other key what it held. -/
theorem get_writeTopology (state : HostWorkspaceState) (t : WorkspaceTopology) (key : WorkspaceKey) :
    (writeTopology state t).get key =
      if isTopology key then (HostWorkspaceState.fromEntries t.entries).get key else state.get key := by
  rw [writeTopology, get_foldl_set, get_cleared]
  cases hvalue : (HostWorkspaceState.fromEntries t.entries).get key with
  | some value =>
    have hsome : ¬ ∀ entry ∈ t.entries, entry.key ≠ key := by
      simp [← get_fromEntries_eq_none, hvalue]
    obtain ⟨entry, hentry, rfl⟩ : ∃ entry ∈ t.entries, entry.key = key := by simpa using hsome
    rw [if_pos (written_entries hentry).1, Option.some_or]
  | none =>
    have hnot : ¬ key ∈ t.entries.map WorkspaceEntry.key := by
      simpa using get_fromEntries_eq_none.mp hvalue
    let supplied : BTreeSet WorkspaceKey := .ofList (t.entries.map WorkspaceEntry.key)
    have hcontains : supplied.contains key = false := by
      rw [Std.ExtTreeSet.contains_ofList]
      simpa using hnot
    cases htopology : isTopology key with
    | false => simp
    | true =>
      rw [hcontains]
      by_cases hkey : key ∈ state.keys
      · simp [hkey]
      · have habsent : state.get key = none := by
          by_contra hne
          exact hkey (HostWorkspaceState.mem_keys.mpr hne)
        simp [habsent]

/-- Writing a topology replaces the topology half and nothing else: the keys
of that half are then those the topology is written under, with its values;
every other key keeps its value; a key of an object the topology does not
have is gone; and writing it again changes nothing. -/
theorem writeTopology_frame (state : HostWorkspaceState) (t : WorkspaceTopology) :
    (∀ key, (writeTopology state t).get key =
      if isTopology key then (HostWorkspaceState.fromEntries t.entries).get key else state.get key) ∧
    (∀ key, key ∈ (writeTopology state t).keys ∧ isTopology key = true ↔
      ∃ entry ∈ t.entries, entry.key = key) ∧
    (∀ key, isTopology key = true → ¬ Names t key → (writeTopology state t).get key = none) ∧
    writeTopology (writeTopology state t) t = writeTopology state t := by
  refine ⟨get_writeTopology state t, fun key => ?_, fun key htopology hnames => ?_, ?_⟩
  · rw [HostWorkspaceState.mem_keys, get_writeTopology]
    constructor
    · rintro ⟨hsome, htopology⟩
      rw [if_pos htopology, ne_eq, get_fromEntries_eq_none] at hsome
      simpa using hsome
    · rintro ⟨entry, hentry, rfl⟩
      have htopology := (written_entries hentry).1
      rw [if_pos htopology, ne_eq, get_fromEntries_eq_none]
      exact ⟨fun hnone => hnone entry hentry rfl, htopology⟩
  · rw [get_writeTopology, if_pos htopology, get_fromEntries_eq_none]
    rintro entry hentry rfl
    exact hnames (written_entries hentry).2
  · refine HostWorkspaceState.ext_get fun key => ?_
    rw [get_writeTopology, get_writeTopology]
    by_cases htopology : isTopology key = true
    · rw [if_pos htopology, if_pos htopology]
    · rw [if_neg htopology, if_neg htopology]

end SlopDesk.HostServer
