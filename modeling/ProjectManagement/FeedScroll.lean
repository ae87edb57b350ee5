import ProjectManagement.NotificationFeed
import ProjectManagement.PageWalk

/-!
Scrolling through the notifications while others are at work: the feed is its history backwards, so what arrives between two
pages only moves the rest back.
-/

namespace ProjectManagement

open Library

variable {D : Deployment} {c : Call} {e : Event} {i : Input} {o : Outcome} {w w' : World} {d d' : Db} {userId : Uuid}
  {params : PageParams} {a : ApiResponse} {es : List Event}

/-- The clock has moved on since the last notification. -/
def Ticks (D : Deployment) (e : Event) (w : World) : Prop := ∀ n ∈ w.1.notifications.rows, n.createdAt < e.call.stamp D

/-- The columns of a notification that no request writes. -/
def Notification.stub (n : Notification) : Uuid × Uuid × Time := (n.id, n.userId, n.createdAt)

def stubs (d : Db) : List (Uuid × Uuid × Time) := d.notifications.rows.map Notification.stub

theorem Notified.stubs {event : Option DomainEvent} {notifications : Table Notification}
    (h : Notified D c event d.notifications notifications) : notifications.rows.map Notification.stub =
      stubs d ++ (event.map fun e => (e.notification D c).stub).toList := by
  rw [h, List.map_append]
  cases event with
  | none => rfl
  | some e => rfl

theorem stub_notification (event : DomainEvent) : (event.notification D c).stub.2.2 = c.stamp D := by cases event <;> rfl

theorem stubs_step (D : Deployment) (e : Event) (w : World) : ∃ new : Option (Uuid × Uuid × Time),
    stubs (nextWorld D e w).1 = stubs w.1 ++ new.toList ∧ ∀ x ∈ new, x.2.2 = e.call.stamp D := by
  apply nextWorld_cases (P := fun w' => ∃ new : Option (Uuid × Uuid × Time),
    stubs w'.1 = stubs w.1 ++ new.toList ∧ ∀ x ∈ new, x.2.2 = e.call.stamp D) e
  · rintro i o w' rfl effect
    have notified : ∀ {c : Call} {d : Db} {event : Option DomainEvent} {notifications : Table Notification},
        Notified D c event d.notifications notifications → ∃ new : Option (Uuid × Uuid × Time),
          notifications.rows.map Notification.stub = stubs d ++ new.toList ∧ ∀ x ∈ new, x.2.2 = c.stamp D := by
      intro c d event notifications h
      refine ⟨_, h.stubs, fun x hx => ?_⟩
      obtain ⟨e, -, rfl⟩ := Option.map_eq_some_iff.mp hx
      exact stub_notification e
    have unchanged : ∀ {c : Call} {d d' : Db}, stubs d' = stubs d → ∃ new : Option (Uuid × Uuid × Time),
        stubs d' = stubs d ++ new.toList ∧ ∀ x ∈ new, x.2.2 = c.stamp D :=
      fun h => ⟨none, h.trans (List.append_nil _).symm, by simp⟩
    cases effect with
    | memberAdded caller admin found user new rows h => exact notified h
    | taskCreated caller errors access project rows h => exact notified h
    | taskUpdated caller task errors sent h => exact notified h
    | @notificationRead c d b a id u n caller found own =>
      obtain ⟨hn, -⟩ := NotificationRepository.find_eq_some.mp found
      apply unchanged
      apply Table.map_put
      intro x hx hid
      obtain rfl : x = n := d.notifications.eq_of_key hx hn hid
      rfl
    | @allNotificationsRead c d b a u caller =>
      have hread : (NotificationRepository.readAll u.id d.notifications).rows.map Notification.stub = stubs d :=
        Table.map_updateWhere fun _ => rfl
      exact unchanged hread
    | _ => exact unchanged rfl
  · exact ⟨none, (List.append_nil _).symm, by simp⟩
  · exact fun users u _ _ _ => ⟨none, (List.append_nil _).symm, by simp⟩

def InOrder (d : Db) : Prop := (stubs d).Pairwise fun x y => x.2.2 < y.2.2

theorem InOrder.step (h : InOrder w.1) (ticks : Ticks D e w) : InOrder (nextWorld D e w).1 := by
  obtain ⟨new, hstubs, hnew⟩ := stubs_step D e w
  rw [InOrder, hstubs]
  apply List.pairwise_append.mpr
  refine ⟨h, by cases new <;> simp, ?_⟩
  intro x hx y hy
  obtain ⟨n, hn, rfl⟩ := List.mem_map.mp hx
  rw [hnew y (Option.mem_toList.mp hy)]
  exact ticks n hn

theorem stubs_kept (run : Execution D (Ticks D) w es w') : stubs w.1 <+: stubs w'.1 := by
  induction run with
  | nil w => exact List.prefix_refl _
  | @cons e w es w' _ _ ih =>
    obtain ⟨new, hstubs, -⟩ := stubs_step D e w
    exact (hstubs ▸ List.prefix_append _ _).trans ih

/-! The feed of a user. -/

def feedIds (D : Deployment) (userId : Uuid) (d : Db) : List Uuid :=
  (NotificationRepository.listForUserQuery D userId d).map Notification.id

theorem InOrder.newestFirst (h : InOrder d) : NotificationRepository.listForUserQuery D userId d =
    (d.notifications.rows.filter fun n => n.userId == userId).reverse := by
  have increasing : (d.notifications.rows.filter fun n => n.userId == userId).Pairwise fun m n => m.createdAt < n.createdAt :=
    (List.pairwise_map.mp h).filter _
  rw [NotificationRepository.listForUserQuery]
  generalize d.notifications.rows.filter (fun n => n.userId == userId) = rows at increasing ⊢
  have hperm := perm_orderBy D.engine [desc fun n : Notification => .number n.createdAt] rows
  have sorted := pairwise_orderBy D.engine [desc fun n : Notification => .number n.createdAt] rows
  have distinct : (orderBy D.engine [desc fun n : Notification => .number n.createdAt] rows).Pairwise
      fun m n => m.createdAt ≠ n.createdAt :=
    hperm.symm.pairwise (increasing.imp ne_of_lt) fun h => h.symm
  have decreasing : (orderBy D.engine [desc fun n : Notification => .number n.createdAt] rows).Pairwise
      fun m n => n.createdAt < m.createdAt := by
    apply (sorted.and distinct).imp
    intro m n hmn
    have hle : n.createdAt ≤ m.createdAt := by simpa [rowLe, OrderTerm.le, desc, Cell.le] using hmn.1
    exact lt_of_le_of_ne hle hmn.2.symm
  have : Std.Irrefl fun m n : Notification => n.createdAt < m.createdAt := ⟨fun m => lt_irrefl m.createdAt⟩
  have : Std.Antisymm fun m n : Notification => n.createdAt < m.createdAt := ⟨fun m n h h' => absurd h (lt_asymm h')⟩
  apply decreasing.eq_of_mem_iff (List.pairwise_reverse.mpr increasing)
  intro n
  rw [hperm.mem_iff, List.mem_reverse]

theorem InOrder.feedIds_eq (h : InOrder d) :
    feedIds D userId d = (((stubs d).filter fun x => x.2.1 == userId).map Prod.fst).reverse := by
  rw [feedIds, h.newestFirst, List.map_reverse, stubs, List.filter_map, List.map_map]
  rfl

theorem feedIds_suffix (run : Execution D (Ticks D) w es w') (h : InOrder w.1) (h' : InOrder w'.1) :
    feedIds D userId w.1 <:+ feedIds D userId w'.1 := by
  rw [h.feedIds_eq, h'.feedIds_eq]
  apply List.reverse_suffix.mpr
  exact ((stubs_kept run).filter _).map _

theorem Execution.inOrder (run : Execution D (Ticks D) w es w') (h : InOrder w.1) : InOrder w'.1 :=
  run.invariant (I := fun w => InOrder w.1) (fun _ _ ticks h => h.step ticks) h

/-! The pages. -/

theorem listNotifications_answer (ok : outcome D ⟨c, .listNotifications params⟩ w = .ok a) (subject : c.subject = some userId) :
    params.errors = [] ∧ a.pagination = some (pageOf params (NotificationRepository.listForUserQuery D userId w.1)).2 ∧
      ∃ items, a.data = .notifications items ∧
        items.map NotificationOut.id = (pageOf params (feedIds D userId w.1)).1 := by
  obtain ⟨t, ht, -⟩ := succeeds_of_outcome ok
  simp only [handle, Routes.listNotifications, NotificationService.listForUser, Tx.succeeds_bind, succeeds_getCurrentUser,
    succeeds_validated, Tx.succeeds_select, Tx.succeeds_pure] at ht
  obtain ⟨u, _, ⟨caller, rfl⟩, _, _, ⟨errors, rfl⟩, _, _, ⟨hpage, rfl⟩, rfl, -⟩ := ht
  obtain ⟨-, rfl⟩ := paginate_eq_ok.mp hpage
  obtain rfl := Option.some.inj (subject.symm.trans caller.subject)
  refine ⟨errors, rfl, _, rfl, ?_⟩
  rw [feedIds, pageOf, pageOf, List.map_map, List.map_take, List.map_drop]
  rfl

/-- Whatever happens between the pages: reading on to the last one shows every notification there was at the first. -/
theorem scroll_misses_nothing {n : ℕ} {worlds : ℕ → World} {calls : ℕ → Call} {answers : ℕ → ApiResponse}
    (start : Execution D (Ticks D) World.initial es (worlds 0))
    (runs : ∀ k < n, ∃ es, Execution D (Ticks D) (worlds k) es (worlds (k + 1)))
    (subject : ∀ k ≤ n, (calls k).subject = some userId)
    (answered : ∀ k ≤ n, outcome D ⟨calls k, .listNotifications { params with page := k + 1 }⟩ (worlds k) = .ok (answers k))
    (last : ∀ info, (answers n).pagination = some info → info.pages ≤ n + 1) :
    ∀ x ∈ (worlds 0).1.notifications.rows, x.userId = userId →
      ∃ k ≤ n, ∃ items, (answers k).data = .notifications items ∧ x.id ∈ items.map NotificationOut.id := by
  intro x hx owner
  have inOrder : ∀ k ≤ n, InOrder (worlds k).1 := by
    intro k hk
    induction k with
    | zero => exact start.inOrder (by simp [InOrder, stubs, World.initial, Db.empty, Table.empty])
    | succ k ih =>
      obtain ⟨es, run⟩ := runs k (by omega)
      exact run.inOrder (ih (by omega))
  have grows : ∀ k < n, feedIds D userId (worlds k).1 <:+ feedIds D userId (worlds (k + 1)).1 := by
    intro k hk
    obtain ⟨es, run⟩ := runs k hk
    exact feedIds_suffix run (inOrder k (by omega)) (inOrder (k + 1) (by omega))
  have hmem : x.id ∈ feedIds D userId (worlds 0).1 := by
    apply List.mem_map_of_mem
    rw [NotificationRepository.listForUserQuery, mem_orderBy, List.mem_filter]
    exact ⟨hx, by simpa using owner⟩
  have hend : (feedIds D userId (worlds n).1).length ≤ (n + 1) * params.size := by
    obtain ⟨errors, pagination, -⟩ := listNotifications_answer (answered n (Nat.le_refl n)) (subject n (Nat.le_refl n))
    rw [feedIds, List.length_map]
    exact (pages_le_iff (size_pos errors) _).mp (last _ pagination)
  obtain ⟨k, hk, hpage⟩ := exists_mem_page_of_growing grows hmem hend
  obtain ⟨-, -, items, hdata, hitems⟩ := listNotifications_answer (answered k hk) (subject k hk)
  refine ⟨k, hk, items, hdata, ?_⟩
  rw [hitems]
  exact hpage

theorem execution_of_ticking
    (h : along D (fun e w => w.1.notifications.rows.all fun n => n.createdAt < e.call.stamp D) w es = true) :
    Execution D (Ticks D) w es (playFrom D w es) := by
  apply (execution_of_along h).mono
  intro e w ticks n hn
  simpa using List.all_eq_true.mp ticks n hn

/-- A notification that arrives between the two pages. -/
def meanwhile : List Event :=
  sampleRequests 10 [(some 16, .createTask { projectId := 32, title := "V", assigneeId := some 64 })]

def twoPerPage : PageParams := { size := 2 }

def scrolled (k : ℕ) : World := playFrom .sample World.initial (if k = 0 then assignments else assignments ++ meanwhile)

theorem scroll_misses_nothing_sample : ∃ answers : ℕ → ApiResponse,
    (∀ k ≤ 1, outcome .sample ⟨Call.sample 11 (some 64), .listNotifications { twoPerPage with page := k + 1 }⟩ (scrolled k) =
      .ok (answers k)) ∧
    ∀ x ∈ (scrolled 0).1.notifications.rows, x.userId = 64 →
      ∃ k ≤ 1, ∃ items, (answers k).data = .notifications items ∧ x.id ∈ items.map NotificationOut.id := by
  have start : Execution .sample (Ticks .sample) World.initial assignments (scrolled 0) := execution_of_ticking (by decide +kernel)
  have run : Execution .sample (Ticks .sample) (scrolled 0) meanwhile (scrolled 1) := by
    have hplay : scrolled 1 = playFrom .sample (scrolled 0) meanwhile := List.foldl_append
    rw [hplay]
    exact execution_of_ticking (by decide +kernel)
  obtain ⟨first, hfirst⟩ := exists_of_isOk (o := outcome .sample
    ⟨Call.sample 11 (some 64), .listNotifications { twoPerPage with page := 1 }⟩ (scrolled 0)) (by decide +kernel)
  obtain ⟨second, hsecond⟩ := exists_of_isOk (o := outcome .sample
    ⟨Call.sample 11 (some 64), .listNotifications { twoPerPage with page := 2 }⟩ (scrolled 1)) (by decide +kernel)
  have answered : ∀ k ≤ 1, outcome .sample ⟨Call.sample 11 (some 64), .listNotifications { twoPerPage with page := k + 1 }⟩
      (scrolled k) = .ok (if k = 0 then first else second) := by
    intro k hk
    rcases Nat.le_one_iff_eq_zero_or_eq_one.mp hk with rfl | rfl
    · exact hfirst
    · exact hsecond
  refine ⟨_, answered, scroll_misses_nothing start ?_ (fun _ _ => rfl) answered ?_⟩
  · intro k hk
    obtain rfl : k = 0 := by omega
    exact ⟨meanwhile, run⟩
  · intro info hinfo
    obtain ⟨-, pagination, -⟩ := listNotifications_answer hsecond rfl
    obtain rfl := Option.some.inj (pagination.symm.trans hinfo)
    decide +kernel

end ProjectManagement
