import FieldSelection.Proofs.Selection.Descent
import FieldSelection.Proofs.Synthesis.Full

/-!
# Walking through full selections

A request is written by walking from a selection to the selections under its keys, each time with
the target type of the key. In a full selection this walk stops (`Schema.Stop`) at

* selections that are full for exactly the type they are seen as,
* paged connections, seen as their connection type, and the edges in them, seen as their edge type,
* `pageInfo`.

One step leads from stop to stop (`Stop.step`), so all that is reached are stops (`Stop.reached`).
-/

namespace FieldSelection

namespace Schema

/-! ## 1. Stops -/

/-- What a walk through a full selection comes to, and as which type. -/
inductive Stop (s : Schema) (pageSize : Nat) : Option String → Selection → Prop where
  | full {type : String} {t : Selection} (h : s.Full pageSize type t) (hne : t.isEmpty = false) :
      Stop s pageSize (some type) t
  | connection {connection type : String} {route : ConnectionRoute} {entries : Selection}
      (hleads : s.Leads connection type route) (h : s.Full pageSize type entries)
      (hne : entries.isEmpty = false) :
      Stop s pageSize (some connection) (route.wrap pageSize entries)
  | edge {edge type : String} {entries : Selection}
      (hnode : (Key.field "node").target? (s.descriptor? edge) = some type)
      (h : s.Full pageSize type entries) (hne : entries.isEmpty = false) :
      Stop s pageSize (some edge) (Selection.empty.withNode "node" entries)
  | pageInfo (type? : Option String) : Stop s pageSize type? Selection.pageInfo

theorem items_pageInfo :
    Selection.pageInfo.items = [(.field "hasNextPage", .leaf), (.field "endCursor", .leaf)] := rfl

theorem items_wrap_nodes (pageSize : Nat) (entries : Selection) :
    (ConnectionRoute.nodes.wrap pageSize entries).items =
      [(.field "nodes", .node entries), (.field "pageInfo", .node .pageInfo)] := rfl

theorem items_wrap_edges (pageSize : Nat) (entries : Selection) :
    (ConnectionRoute.edges.wrap pageSize entries).items =
      [(.field "edges", .node (Selection.empty.withNode "node" entries)),
        (.field "pageInfo", .node .pageInfo)] := rfl

theorem arguments_wrap (pageSize : Nat) (entries : Selection) (route : ConnectionRoute) :
    (route.wrap pageSize entries).arguments = [("first", .ofNat pageSize)] := by
  cases route <;> rfl

variable {s : Schema} {pageSize : Nat} {type? : Option String} {t : Selection}

/-- From what is full for a type, the walk steps to its entries or to connections around them. -/
theorem Full.step {type : String} (h : s.Full pageSize type t) {key : Key} {child : Selection}
    (hitem : (key, .node child) ∈ t.items) :
    s.Stop pageSize (key.target? (s.descriptor? type)) child := by
  obtain ⟨hd, hitems⟩ := h
  have hentry := hitems _ hitem
  rw [hd]
  cases hentry with
  | object hf hplain hchild hne =>
    rw [Key.target?, Option.bind_some, hf]
    exact .full hchild hne
  | connection hf hconnection hnode hentries hne =>
    rw [Key.target?, Option.bind_some, hf]
    exact .connection (leads_of_connectionNode? (connectionNode?_of_field? hd hf hnode)) hentries
      hne

/-- From a connection, the walk steps to its entries or edges, and to `pageInfo`. -/
theorem Leads.step {connection type : String} {route : ConnectionRoute} {entries : Selection}
    (hleads : s.Leads connection type route) (h : s.Full pageSize type entries)
    (hne : entries.isEmpty = false) {key : Key} {child : Selection}
    (hitem : (key, .node child) ∈ (route.wrap pageSize entries).items) :
    s.Stop pageSize (key.target? (s.descriptor? connection)) child := by
  cases route with
  | nodes =>
    rw [items_wrap_nodes, List.mem_cons, List.mem_singleton] at hitem
    rcases hitem with heq | heq
    · cases heq
      rw [hleads]
      exact .full h hne
    · cases heq
      exact .pageInfo _
  | edges =>
    obtain ⟨edge, hedge, hnode⟩ := hleads
    rw [items_wrap_edges, List.mem_cons, List.mem_singleton] at hitem
    rcases hitem with heq | heq
    · cases heq
      rw [hedge]
      exact .edge hnode h hne
    · cases heq
      exact .pageInfo _

/-- The walk steps from a stop to a stop. -/
theorem Stop.step (h : s.Stop pageSize type? t) {key : Key} {child : Selection}
    (hitem : (key, .node child) ∈ t.items) :
    s.Stop pageSize (key.target? (type?.bind s.descriptor?)) child := by
  cases h with
  | full hfull hne => exact hfull.step hitem
  | connection hleads hentries hne => exact hleads.step hentries hne hitem
  | edge hnode hentries hne =>
    have heq := List.mem_singleton.mp hitem
    cases heq
    rw [Option.bind_some, hnode]
    exact .full hentries hne
  | pageInfo =>
    rw [items_pageInfo] at hitem
    simp at hitem

/-- **Everything that is reached from a stop is a stop.** -/
theorem Stop.reached (h : s.Stop pageSize type? t) {keys : List Key} {end? : Option String}
    {u : Selection} (hu : t.Reached s type? keys end? u) : s.Stop pageSize end? u := by
  induction hu with
  | here => exact h
  | under hitem _ ih => exact ih (h.step hitem)

end Schema

end FieldSelection
