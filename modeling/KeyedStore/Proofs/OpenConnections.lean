import Mathlib
import KeyedStore.Service.Dispatch

/-!
# Open connections

Every connection that was let in and is not over has one place: the acceptor, the queue, or a worker. A
step takes a connection from one place to another, lets one in while the registry has room, or ends some.
So there are never more connections than the registry may hold, each of them is in the registry until the
service stops, and one that is on its way into the queue finds room there.
-/

namespace KeyedStore

variable {ws : List Worker} {w : Worker} {i : Nat}

open scoped List in
/-- The connections of all workers but one do not depend on what this one does. -/
theorem Worker.exists_perm_set (h : ws[i]? = some w) :
    ∃ others, ∀ w', (ws.set i w').filterMap connection? ~ w'.connection?.toList ++ others := by
  obtain ⟨hi, -⟩ := List.getElem?_eq_some_iff.1 h
  refine ⟨(ws.take i).filterMap connection? ++ (ws.drop (i + 1)).filterMap connection?, ?_⟩
  intro w'
  rw [List.set_eq_take_append_cons_drop, if_pos hi, List.filterMap_append, List.filterMap_cons]
  cases hc : w'.connection? with
  | none => exact List.Perm.refl _
  | some id => exact List.perm_middle

theorem Worker.set_self (h : ws[i]? = some w) : ws.set i w = ws := by
  obtain ⟨hi, rfl⟩ := List.getElem?_eq_some_iff.1 h
  exact List.set_getElem_self hi

namespace Dispatch

open scoped List

variable {limit workers : Nat} {d d' : Dispatch} {id : UInt64}

/-! ### What a step does to the connections -/

/-- All that a step can do to the connections and to the registry. -/
inductive Changes (d d' : Dispatch) : Prop
  /-- Each connection stays where it is, gets another place, or is lost with the queue. -/
  | kept (hc : d'.connections <+~ d.connections) (hr : d'.registry = d.registry)
      (hn : d'.admitted = d.admitted) (hg : d.acceptor = .gone → d'.acceptor = .gone)
  | added (hc : d'.connections = d.nextId :: d.connections) (hr : d'.registry = d.registry.insert d.nextId)
      (hroom : d.registry.length < d.limit) (hn : d'.admitted = d.admitted + 1) (hg : d.acceptor ≠ .gone)
  | removed {id : UInt64} (hc : d.connections ~ id :: d'.connections)
      (hr : d'.registry = d.registry.erase id) (hn : d'.admitted = d.admitted)
      (hg : d.acceptor = .gone → d'.acceptor = .gone)
  | drained (hc : d'.connections = d.connections) (hr : d'.registry = [])
      (hn : d'.admitted = d.admitted) (hg : d'.acceptor = .gone)

theorem connections_of_sending (ha : d.acceptor = .sending id) :
    d.connections = id :: (d.queue ++ d.held) := by
  rw [connections, entering, ha]
  rfl

/-- What the workers have before one of them goes on to something else, and afterwards. -/
theorem exists_perm_held (hw : d.workers[i]? = some w) :
    ∃ others, d.held ~ w.connection?.toList ++ others ∧
      ∀ w', (d.setWorker i w').held ~ w'.connection?.toList ++ others := by
  obtain ⟨others, h⟩ := Worker.exists_perm_set hw
  refine ⟨others, ?_, h⟩
  have hself := h w
  rwa [Worker.set_self hw] at hself

/-- A worker that goes on with the same connection, or without one, leaves every connection in place. -/
theorem perm_setWorker {w' : Worker} (hw : d.workers[i]? = some w)
    (hc : w'.connection? = w.connection?) : (d.setWorker i w').held ~ d.held := by
  obtain ⟨others, hnow, hthen⟩ := exists_perm_held hw
  apply (hthen w').trans
  rw [hc]
  exact hnow.symm

theorem changes_setWorker {w' : Worker} (hw : d.workers[i]? = some w)
    (hc : w'.connection? = w.connection?) : Changes d (d.setWorker i w') :=
  .kept (((perm_setWorker hw hc).append_left _).append_left _).subperm rfl rfl fun hg => hg

/-- An acceptor that has no connection before and after it goes on leaves every connection in place. -/
theorem changes_acceptor {a : Acceptor} (ha : d.acceptor.connection? = none) (ha' : a.connection? = none)
    (hg : d.acceptor ≠ .gone) : Changes d { d with acceptor := a } := by
  have hentering : { d with acceptor := a }.entering = d.entering := by
    rw [entering, entering, ha, ha']
  have hc : { d with acceptor := a }.connections = d.connections := by
    rw [connections, connections, hentering]
    rfl
  exact .kept (List.Perm.of_eq hc).subperm rfl rfl fun h => absurd h hg

/-- The last worker that ends takes the queue with it. -/
theorem subperm_endWorker (hw : d.workers[i]? = some .waiting) :
    (d.endWorker i).connections <+~ d.connections := by
  have hheld : (d.setWorker i .ended).held ~ d.held := perm_setWorker hw rfl
  have hqueue : (d.endWorker i).queue <+~ d.queue := by
    unfold endWorker
    dsimp only
    split
    · exact List.nil_subperm
    · exact List.Subperm.refl _
  exact (List.Subperm.refl _).append (hqueue.append hheld.subperm)

/-- Every step of the acceptor, of a worker, or of who stops the service makes one of these changes. -/
theorem Step.changes (hs : Step d d') : Changes d d' := by
  cases hs with
  | look ha hs => exact changes_acceptor (by rw [ha]; rfl) rfl (by simp [ha])
  | leave ha hs => exact changes_acceptor (by rw [ha]; rfl) rfl (by simp [ha])
  | pass ha => exact changes_acceptor (by rw [ha]; rfl) rfl (by simp [ha])
  | refuse ha hfull => exact changes_acceptor (by rw [ha]; rfl) rfl (by simp [ha])
  | letIn ha hroom =>
    have hc : d.letIn.connections = d.nextId :: d.connections := by
      rw [connections_of_sending rfl, connections, entering, ha]
      rfl
    exact .added hc rfl (by simpa [admits] using hroom) rfl (by simp [ha])
  | @send id ha hroom hw =>
    have hc : ({ d.enqueue id with acceptor := .looking } : Dispatch).connections ~ d.connections := by
      calc ({ d.enqueue id with acceptor := .looking } : Dispatch).connections
          ~ d.queue ++ ([id] ++ d.held) := .of_eq (List.append_assoc _ _ _)
        _ ~ id :: (d.queue ++ d.held) := List.perm_middle
        _ ~ d.connections := .of_eq (connections_of_sending ha).symm
    exact .kept hc.subperm rfl rfl (by simp [ha])
  | @abandon id ha hw =>
    exact .removed (List.Perm.of_eq (connections_of_sending ha)) rfl rfl (by simp [ha])
  | drain ha =>
    refine .drained ?_ rfl rfl rfl
    rw [connections, connections, entering, entering, ha]
    rfl
  | @receive i id rest hw hq =>
    obtain ⟨others, hnow, hthen⟩ := exists_perm_held hw
    have hc : rest ++ (d.setWorker i (.serving id)).held ~ d.queue ++ d.held := by
      calc rest ++ (d.setWorker i (.serving id)).held
          ~ rest ++ (id :: others) := (hthen _).append_left _
        _ ~ id :: (rest ++ others) := List.perm_middle
        _ ~ id :: (rest ++ d.held) := (hnow.symm.append_left _).cons id
        _ ~ d.queue ++ d.held := .of_eq (by rw [hq]; rfl)
    exact .kept (hc.append_left _).subperm rfl rfl fun hg => hg
  | close hw => exact changes_setWorker hw rfl
  | interrupt hw hq => exact changes_setWorker hw rfl
  | @requeue i id hw hroom =>
    obtain ⟨others, hnow, hthen⟩ := exists_perm_held hw
    have hc : (d.queue ++ [id]) ++ (d.setWorker i .waiting).held ~ d.queue ++ d.held := by
      calc (d.queue ++ [id]) ++ (d.setWorker i .waiting).held
          ~ d.queue ++ ([id] ++ (d.setWorker i .waiting).held) := .of_eq (List.append_assoc _ _ _)
        _ ~ d.queue ++ ([id] ++ others) := ((hthen _).append_left _).append_left _
        _ ~ d.queue ++ d.held := hnow.symm.append_left _
    exact .kept (hc.append_left _).subperm rfl rfl fun hg => hg
  | drop hw hfull => exact changes_setWorker hw rfl
  | @deregister i id hw =>
    obtain ⟨others, hnow, hthen⟩ := exists_perm_held hw
    have hheld : d.held ~ id :: (d.setWorker i .waiting).held :=
      hnow.trans ((hthen .waiting).symm.cons id)
    refine .removed ?_ rfl rfl fun hg => hg
    calc d.connections
        ~ (d.entering ++ d.queue) ++ (id :: (d.setWorker i .waiting).held) := by
          rw [connections, ← List.append_assoc]
          exact hheld.append_left _
      _ ~ id :: ((d.entering ++ d.queue) ++ (d.setWorker i .waiting).held) := List.perm_middle
      _ ~ id :: (d.entering ++ (d.queue ++ (d.setWorker i .waiting).held)) :=
          .of_eq (by rw [List.append_assoc])
  | finish hw hs => exact .kept (subperm_endWorker hw) rfl rfl fun hg => hg
  | stop => exact .kept (List.Perm.refl _).subperm rfl rfl fun hg => hg

theorem Step.limit_eq (hs : Step d d') : d'.limit = d.limit := by
  cases hs <;> rfl

theorem Reachable.limit_eq (hr : Reachable limit workers d) : d.limit = limit := by
  induction hr with
  | start => rfl
  | step hr hs ih => rw [hs.limit_eq, ih]

/-! ### The limit -/

theorem Changes.length_registry_le (hc : Changes d d') (hlimit : d'.limit = d.limit)
    (hd : d.registry.length ≤ d.limit) : d'.registry.length ≤ d'.limit := by
  rw [hlimit]
  cases hc with
  | kept hc hr hn hg => rwa [hr]
  | added hc hr hroom hn hg =>
    rw [hr, List.length_insert]
    split <;> omega
  | removed hc hr hn hg =>
    rw [hr]
    exact List.length_erase_le.trans hd
  | drained hc hr hn hg =>
    rw [hr]
    exact Nat.zero_le _

theorem Reachable.length_registry_le (hr : Reachable limit workers d) : d.registry.length ≤ d.limit := by
  induction hr with
  | start => exact Nat.zero_le _
  | step hr hs ih => exact hs.changes.length_registry_le hs.limit_eq ih

/-! ### Where connections are -/

/-- No two connections share a number, the registry has each of them until the service stops, and there
are never more of them than it may have. -/
structure Sound (d : Dispatch) : Prop where
  opened : ∀ id ∈ d.connections, id.toNat < d.admitted
  nodup : d.connections.Nodup
  registered : d.acceptor ≠ .gone → d.connections ⊆ d.registry
  few : d.connections.length ≤ d.limit

theorem sound_start (limit workers : Nat) : (start limit workers).Sound := by
  have hheld : (start limit workers).held = [] := List.filterMap_replicate_of_none rfl
  have hc : (start limit workers).connections = [] := by
    rw [connections, hheld]
    rfl
  constructor <;> simp [hc]

theorem toNat_nextId (h : d.admitted < Bytes.bound 8) : d.nextId.toNat = d.admitted :=
  UInt64.toNat_ofNat_of_lt' h

/-- The number of a new connection is not that of another one, as long as no number comes again. -/
theorem Sound.nextId_notMem (hd : d.Sound) (hn : d.admitted < Bytes.bound 8) :
    d.nextId ∉ d.connections := by
  intro h
  have hlt := hd.opened _ h
  rw [toNat_nextId hn] at hlt
  exact Nat.lt_irrefl _ hlt

/-- Where no connection is new, those that are left are as sound as all of them were. -/
theorem Sound.of_subperm (hd : d.Sound) (hc : d'.connections <+~ d.connections)
    (hlimit : d'.limit = d.limit) (hn : d'.admitted = d.admitted)
    (hreg : d'.acceptor ≠ .gone → d'.connections ⊆ d'.registry) :
    d'.Sound where
  opened id h := by
    rw [hn]
    exact hd.opened id (hc.subset h)
  nodup := by
    obtain ⟨ids, hperm, hsub⟩ := hc
    exact hperm.nodup_iff.1 (hd.nodup.sublist hsub)
  registered := hreg
  few := by
    rw [hlimit]
    exact hc.length_le.trans hd.few

theorem Sound.changes (hd : d.Sound) (hc : Changes d d') (hlimit : d'.limit = d.limit)
    (hwithin : d'.registry.length ≤ d'.limit) (hn : d'.admitted ≤ Bytes.bound 8) : d'.Sound := by
  cases hc with
  | kept hc hr hn' hg =>
    apply hd.of_subperm hc hlimit hn'
    intro hgone
    rw [hr]
    exact List.Subset.trans hc.subset (hd.registered (mt hg hgone))
  | added hc hr hroom hn' hg =>
    rw [hn'] at hn
    have hnodup : d'.connections.Nodup := by
      rw [hc]
      exact hd.nodup.cons (hd.nextId_notMem hn)
    have hreg : d'.connections ⊆ d'.registry := by
      rw [hc, hr]
      apply List.cons_subset.2 ⟨List.mem_insert_self, ?_⟩
      exact fun id h => List.mem_insert_of_mem (hd.registered hg h)
    refine ⟨?_, hnodup, fun _ => hreg, (hnodup.subperm hreg).length_le.trans hwithin⟩
    intro id h
    rw [hc, List.mem_cons] at h
    rw [hn']
    rcases h with rfl | h
    · rw [toNat_nextId hn]
      exact Nat.lt_succ_self _
    · exact Nat.lt_succ_of_lt (hd.opened id h)
  | @removed id hc hr hn' hg =>
    have hsub : d'.connections <+~ d.connections :=
      (List.sublist_cons_self id _).subperm.trans hc.symm.subperm
    apply hd.of_subperm hsub hlimit hn'
    intro hgone id' h
    have hne : id' ≠ id := by
      rintro rfl
      exact (List.nodup_cons.1 (hc.nodup_iff.1 hd.nodup)).1 h
    rw [hr, List.mem_erase_of_ne hne]
    exact hd.registered (mt hg hgone) (hsub.subset h)
  | drained hc hr hn' hg =>
    exact hd.of_subperm (List.Perm.of_eq hc).subperm hlimit hn' fun hgone => absurd hg hgone

theorem Reachable.sound (hr : Reachable limit workers d) (hn : d.admitted ≤ Bytes.bound 8) : d.Sound := by
  induction hr with
  | start => exact sound_start _ _
  | @step d d' hr hs ih =>
    have hle : d.admitted ≤ d'.admitted := by
      cases hs.changes <;> omega
    have hwithin := (hr.step hs).length_registry_le
    exact (ih (hle.trans hn)).changes hs.changes hs.limit_eq hwithin hn

/-! ### Room in the queue -/

theorem hasRoom_of_lt (h : d.queue.length < d.limit) : d.hasRoom = true :=
  decide_eq_true (Nat.lt_of_lt_of_le h (Nat.le_max_left _ _))

theorem Sound.hasRoom_of_sending (hd : d.Sound) (ha : d.acceptor = .sending id) : d.hasRoom = true := by
  have hfew := hd.few
  rw [connections_of_sending ha, List.length_cons, List.length_append] at hfew
  exact hasRoom_of_lt (by omega)

theorem Sound.hasRoom_of_returning (hd : d.Sound) (hw : d.workers[i]? = some (.returning id)) :
    d.hasRoom = true := by
  have hmem : id ∈ d.held := List.mem_filterMap.2 ⟨_, List.mem_of_getElem? hw, rfl⟩
  have hpos : 0 < d.held.length := List.length_pos_of_mem hmem
  have hfew := hd.few
  rw [connections, List.length_append, List.length_append] at hfew
  exact hasRoom_of_lt (by omega)

/-- The registry never has more connections than it may. As long as the numbers of connections have not
started over, each connection with the acceptor, in the queue or with a worker is there only once, it is
registered until the service has ended them all, and the queue has room for one that is to go into it. -/
theorem Reachable.connections_have_room (hr : Reachable limit workers d) :
    d.registry.length ≤ limit ∧
      (d.admitted ≤ Bytes.bound 8 →
        d.connections.Nodup ∧
        (d.acceptor ≠ .gone → ∀ id ∈ d.connections, id ∈ d.registry) ∧
        (∀ id, d.acceptor = .sending id → d.hasRoom = true) ∧
        ∀ (i : Nat) (id : UInt64), d.workers[i]? = some (.returning id) → d.hasRoom = true) := by
  constructor
  · rw [← hr.limit_eq]
    exact hr.length_registry_le
  · intro hn
    have hd := hr.sound hn
    exact ⟨hd.nodup, hd.registered, fun _ => hd.hasRoom_of_sending, fun _ _ => hd.hasRoom_of_returning⟩

/-- One worker serves the first of two connections and interrupts it for the second one, which waits. -/
theorem Reachable.connections_have_room_of_interrupt :
    Reachable 2 1 ⟨2, [.returning 0], .looking, [1, 0], [1], 2, false⟩ ∧ 2 ≤ Bytes.bound 8 ∧
      (Dispatch.mk 2 [.returning 0] .looking [1, 0] [1] 2 false).hasRoom = true := by
  have h₁ : Reachable 2 1 ⟨2, [.waiting], .sending 0, [0], [], 1, false⟩ :=
    (Reachable.start.step (.look rfl rfl)).step (.letIn rfl rfl)
  have h₂ : Reachable 2 1 ⟨2, [.serving 0], .looking, [0], [], 1, false⟩ :=
    (h₁.step (.send rfl rfl rfl)).step (.receive (i := 0) rfl rfl)
  have h₃ : Reachable 2 1 ⟨2, [.serving 0], .looking, [1, 0], [1], 2, false⟩ :=
    ((h₂.step (.look rfl rfl)).step (.letIn rfl rfl)).step (.send rfl rfl rfl)
  have h₄ : Reachable 2 1 ⟨2, [.returning 0], .looking, [1, 0], [1], 2, false⟩ :=
    h₃.step (.interrupt (i := 0) rfl (by decide))
  have hn : 2 ≤ Bytes.bound 8 := by decide
  exact ⟨h₄, hn, (h₄.connections_have_room.2 hn).2.2.2 0 0 rfl⟩

end Dispatch

end KeyedStore
