import FaultSweep.Gateway.Client
import FaultSweep.Proofs.Json.Records
import FaultSweep.Proofs.SortedMap

/-!
# Pin reports

What a reply of the cluster says about the pins of a file. A report is a record of a map of peers,
and a peer a record of its state. Either field may be missing, so a peer need not have a state, and
a report need not name a peer. The verdict on a report asks of every peer it names whether it holds
the pin: of a report that names none it is that all do.
-/

namespace FaultSweep

theorem mapM_eq_some_iff {α β : Type} {f : α → Option β} {xs : List α} {ys : List β} :
    xs.mapM f = some ys ↔ List.Forall₂ (fun x y => f x = some y) xs ys := by
  induction xs generalizing ys with
  | nil => simp [eq_comm]
  | cons x xs ih =>
    simp only [List.mapM_cons, Option.bind_eq_bind, Option.bind_eq_some_iff, Option.pure_def,
      Option.some.injEq]
    constructor
    · rintro ⟨y, hy, zs, hzs, rfl⟩
      exact .cons hy (ih.1 hzs)
    · rintro (_ | ⟨hy, hys⟩)
      exact ⟨_, hy, _, ih.2 hys, rfl⟩

namespace Json

/-! ### Reports -/

/-- The state of a file on a peer. A peer that does not tell counts as one that tells nothing. -/
inductive PeerState : Json → String → Prop
  | told {v : Json} {s : String} (h : Lone "status" v (some (.str s))) : PeerState v s
  | untold {v : Json} (h : Lone "status" v none) : PeerState v ""

/-- The peers that a report names, each with its state. -/
inductive PinReport : Json → List (String × String) → Prop
  | peers {v : Json} {fields : List (String × Json)} {peers : List (String × String)}
      (h : Lone "peer_map" v (some (.obj fields)))
      (hpeers : List.Forall₂ (fun f p => f.1 = p.1 ∧ PeerState f.2 p.2) fields peers) :
      PinReport v peers
  | nobody {v : Json} (h : Lone "peer_map" v none) : PinReport v []

end Json

namespace StorageClient

open Json

theorem peerState?_ofJson {v : Json} (hv : v.Parsed) (k : Nat) {s : String} :
    peerState? reader ⟨k + 1, .ofJson v⟩ = some s ↔ PeerState v s := by
  rw [peerState?, Option.bind_eq_bind, Node.field_ofJson hv]
  constructor
  · rintro (⟨x, hx, hs⟩ | ⟨hx, hs⟩)
    · obtain rfl := (Node.text?_ofJson k).1 hs
      exact .told hx
    · obtain rfl := Option.some.inj hs
      exact .untold hx
  · rintro (⟨hx⟩ | ⟨hx⟩)
    · exact .inl ⟨_, hx, (Node.text?_ofJson k).2 rfl⟩
    · exact .inr ⟨hx, rfl⟩

/-- The entries of the map of peers, as they are read. -/
theorem peers_ofJson {v : Json} (hv : v.Parsed) {k : Nat} (hk : v.depth < k)
    {peers : List (String × String)} :
    ((reader.entries? ⟨k, .ofJson v⟩).bind fun es => es.mapM fun e =>
      (peerState? reader e.2).map (e.1, ·)) = some peers ↔
      ∃ fields, v = .obj fields ∧
        List.Forall₂ (fun f p => f.1 = p.1 ∧ PeerState f.2 p.2) fields peers := by
  cases v with
  | obj fields =>
    -- Two levels are entered below the node: the map, and the record of a peer.
    rw [depth_obj] at hk
    obtain ⟨k, rfl⟩ := Nat.exists_eq_add_of_le' (show 2 ≤ k by omega)
    have hentries : reader.entries? ⟨k + 1 + 1, .ofJson (.obj fields)⟩ = _ :=
      Node.entries?_ofJson (k + 1) fields
    rw [hentries, Option.bind_some, mapM_eq_some_iff, List.forall₂_map_left_iff]
    have hpeer : ∀ (f : String × Json) (p : String × String), f.2.Parsed →
        ((peerState? reader ⟨k + 1, .ofJson f.2⟩).map (f.1, ·) = some p ↔
          f.1 = p.1 ∧ PeerState f.2 p.2) := by
      rintro f ⟨name, s⟩ hf
      rw [← peerState?_ofJson hf k, Option.map_eq_some_iff]
      simp [and_comm]
    constructor
    · intro h
      refine ⟨fields, rfl, ((List.forall₂_and_left _ _).2 ⟨hv.fields.2, h⟩).imp ?_⟩
      exact fun f p h => (hpeer f p h.1).1 h.2
    · rintro ⟨_, ⟨⟩, h⟩
      refine ((List.forall₂_and_left _ _).2 ⟨hv.fields.2, h⟩).imp ?_
      exact fun f p h => (hpeer f p h.1).2 h.2
  | _ =>
    constructor
    · exact fun h => by cases k <;> cases h
    · rintro ⟨_, ⟨⟩, -⟩

theorem sorted_of_pinReport {v : Json} (hv : v.Parsed) {peers : List (String × String)}
    (h : PinReport v peers) : peers.Pairwise (fun a b => a.1 < b.1) := by
  cases h with
  | peers h hpeers =>
    rename_i fields
    have hnames : fields.map (·.1) = peers.map (·.1) := by
      rw [← List.forall₂_eq_eq_eq, List.forall₂_map_left_iff, List.forall₂_map_right_iff]
      exact hpeers.imp fun _ _ h => h.1
    have hsorted := List.pairwise_map.2 (h.parsed hv).fields.1
    rw [hnames] at hsorted
    exact List.pairwise_map.1 hsorted
  | nobody => exact .nil

/-- A report is read where there is one, and all the peers it names are read. -/
theorem pinReport?_eq_some_iff {v : Json} (hv : v.Parsed) {m : SortedMap String} :
    pinReport? v = some m ↔ PinReport v m.entries := by
  have hreport : ∀ peers, ((∃ x, Lone "peer_map" v (some x) ∧
      ((reader.entries? ⟨v.depth, .ofJson x⟩).bind fun es => es.mapM fun e =>
        (peerState? reader e.2).map (e.1, ·)) = some peers) ∨
      Lone "peer_map" v none ∧ some [] = some peers) ↔ PinReport v peers := by
    intro peers
    constructor
    · rintro (⟨x, hx, hread⟩ | ⟨hnone, hread⟩)
      · obtain ⟨fields, rfl, hpeers⟩ := (peers_ofJson (hx.parsed hv) hx.depth_lt).1 hread
        exact .peers hx hpeers
      · obtain rfl := Option.some.inj hread
        exact .nobody hnone
    · rintro (⟨hx, hpeers⟩ | ⟨hnone⟩)
      · exact .inl ⟨_, hx, (peers_ofJson (hx.parsed hv) hx.depth_lt).2 ⟨_, rfl, hpeers⟩⟩
      · exact .inr ⟨hnone, rfl⟩
  have hread : pinReport? v = ((reader.fields? ["peer_map"] ⟨v.depth + 1, .ofJson v⟩).bind fun fs =>
      Reader.field fs "peer_map" (some []) fun n => (reader.entries? n).bind fun es =>
        es.mapM fun e => (peerState? reader e.2).map (e.1, ·)).map SortedMap.ofList := by
    rw [Option.map_eq_bind, Option.bind_assoc]
    rfl
  rw [hread, Option.map_eq_some_iff]
  simp only [Node.field_ofJson hv, hreport]
  constructor
  · rintro ⟨peers, hpeers, rfl⟩
    rwa [SortedMap.entries_ofList (sorted_of_pinReport hv hpeers)]
  · exact fun h => ⟨m.entries, h, SortedMap.ofList_entries m⟩

theorem pinReport_iff {v : Json} (hv : v.Parsed) {peers : List (String × String)} :
    PinReport v peers ↔ ∃ m, pinReport? v = some m ∧ m.entries = peers := by
  constructor
  · intro h
    have hentries := SortedMap.entries_ofList (sorted_of_pinReport hv h)
    exact ⟨_, (pinReport?_eq_some_iff hv).2 (by rwa [hentries]), hentries⟩
  · rintro ⟨m, hm, rfl⟩
    exact (pinReport?_eq_some_iff hv).1 hm

theorem pinned_eq_ok_iff {v : Json} (hv : v.Parsed) {b : Bool} :
    pinned v = .ok b ↔ ∃ peers, PinReport v peers ∧ peers.all (·.2 = "pinned") = b := by
  simp only [pinReport_iff hv, pinned]
  cases pinReport? v <;> simp

example : pinned (.obj []) = .ok true := rfl

end StorageClient

/-! ### Replies -/

/-- A reply that reports peers with their states: one with a status of success and a body that holds
a pin report. -/
def Fetched.Reports (f : Fetched) (peers : List (String × String)) : Prop :=
  ∃ status body v, f = .answered status body ∧ 200 ≤ status ∧ status ≤ 299 ∧
    (Utf8.decode? body).bind Json.parse? = some v ∧ v.PinReport peers

/-- A reply that reports peers, and of each of them that it has the pin. -/
def Fetched.Confirms (f : Fetched) : Prop :=
  ∃ peers, peers ≠ [] ∧ f.Reports peers ∧ ∀ p ∈ peers, p.2 = "pinned"

namespace StorageClient

theorem reports_unique {f : Fetched} {peers peers' : List (String × String)}
    (h : f.Reports peers) (h' : f.Reports peers') : peers = peers' := by
  obtain ⟨status, body, v, rfl, -, -, hv, hpeers⟩ := h
  obtain ⟨_, _, v', ⟨⟩, -, -, hv', hpeers'⟩ := h'
  obtain rfl := Option.some.inj (hv.symm.trans hv')
  obtain ⟨n, hn, rfl⟩ := (pinReport_iff (.of_body hv)).1 hpeers
  obtain ⟨n', hn', rfl⟩ := (pinReport_iff (.of_body hv)).1 hpeers'
  rw [Option.some.inj (hn.symm.trans hn')]

theorem jsonReply_eq_ok_iff {f : Fetched} {v : Json} :
    jsonReply f = .ok v ↔ ∃ status body, f = .answered status body ∧ 200 ≤ status ∧
      status ≤ 299 ∧ (Utf8.decode? body).bind Json.parse? = some v := by
  cases f with
  | failed text => simp [jsonReply]
  | broken status text => simp [jsonReply]
  | answered status body =>
    have hsuccess : isSuccess status = true ↔ 200 ≤ status ∧ status ≤ 299 := by simp [isSuccess]
    rw [jsonReply]
    split_ifs with h
    · have hrange := hsuccess.1 h
      cases hv : (Utf8.decode? body).bind Json.parse? <;> simp [hrange, hv]
    · have hrange := mt hsuccess.2 h
      simp only [false_iff]
      rintro ⟨_, _, ⟨⟩, hlow, hhigh, -⟩
      exact hrange ⟨hlow, hhigh⟩

variable {σ : Type} (m : Machine σ) (c : StorageClient)

/-- What comes of the request for the pins of a file. -/
def pinReply (cid : String) (w : World σ) : Fetched × World σ :=
  w.fetch m ⟨.get, c.endpoints.cluster ++ "/pins/" ++ cid, none⟩

theorem pinStatus_apply (cid : String) (w : World σ) : c.pinStatus m cid w =
    ((jsonReply (c.pinReply m cid w).1).bind pinned, (c.pinReply m cid w).2) := rfl

theorem pinStatus_eq_ok_iff {cid : String} {w : World σ} {b : Bool} :
    (c.pinStatus m cid w).1 = .ok b ↔ ∃ peers,
      (c.pinReply m cid w).1.Reports peers ∧ peers.all (·.2 = "pinned") = b := by
  rw [pinStatus_apply]
  constructor
  · intro h
    cases hreply : jsonReply (c.pinReply m cid w).1 with
    | error e =>
      rw [hreply] at h
      cases h
    | ok v =>
      rw [hreply] at h
      obtain ⟨status, body, hf, hlow, hhigh, hv⟩ := jsonReply_eq_ok_iff.1 hreply
      obtain ⟨peers, hpeers, hall⟩ := (pinned_eq_ok_iff (.of_body hv)).1 h
      exact ⟨peers, ⟨status, body, v, hf, hlow, hhigh, hv, hpeers⟩, hall⟩
  · rintro ⟨peers, ⟨status, body, v, hf, hlow, hhigh, hv, hpeers⟩, hall⟩
    have hreply := jsonReply_eq_ok_iff.2 ⟨status, body, hf, hlow, hhigh, hv⟩
    exact (congrArg (Except.bind · pinned) hreply).trans
      ((pinned_eq_ok_iff (.of_body hv)).2 ⟨peers, hpeers, hall⟩)

theorem pinStatus_ok_true_iff {cid : String} {w : World σ} :
    (c.pinStatus m cid w).1 = .ok true ↔
      (c.pinReply m cid w).1.Confirms ∨ (c.pinReply m cid w).1.Reports [] := by
  rw [pinStatus_eq_ok_iff]
  constructor
  · rintro ⟨_ | ⟨p, peers⟩, hpeers, hall⟩
    · exact .inr hpeers
    · exact .inl ⟨_, List.cons_ne_nil _ _, hpeers, by simpa using hall⟩
  · rintro (⟨peers, -, hpeers, hall⟩ | hnone)
    · exact ⟨peers, hpeers, by simpa using hall⟩
    · exact ⟨[], hnone, rfl⟩

theorem pinStatus_ok_false_iff {cid : String} {w : World σ} :
    (c.pinStatus m cid w).1 = .ok false ↔
      ∃ peers, (c.pinReply m cid w).1.Reports peers ∧ ∃ p ∈ peers, p.2 ≠ "pinned" := by
  simp [pinStatus_eq_ok_iff]

theorem pinStatus_error_iff {cid : String} {w : World σ} :
    (∃ e, (c.pinStatus m cid w).1 = .error e) ↔
      ∀ peers, ¬(c.pinReply m cid w).1.Reports peers := by
  constructor
  · rintro ⟨e, he⟩ peers hpeers
    rw [(c.pinStatus_eq_ok_iff m).2 ⟨peers, hpeers, rfl⟩] at he
    cases he
  · intro hnone
    rcases hstatus : (c.pinStatus m cid w).1 with e | b
    · exact ⟨e, rfl⟩
    · obtain ⟨peers, hpeers, -⟩ := (c.pinStatus_eq_ok_iff m).1 hstatus
      exact absurd hpeers (hnone peers)

end StorageClient

end FaultSweep
