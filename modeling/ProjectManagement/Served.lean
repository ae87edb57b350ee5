import ProjectManagement.Schema

/-!
What a client is sent. The last thing a handler does is to put every account of its response through `EmailStr` once more; the
seed script stores an address as it was typed, so that a response may fail there, and its request is rolled back.
-/

namespace ProjectManagement

open Library

def EmailStr.accepts (E : EmailStr) (text : String) : Bool := (E.validate text).isOk

def UserOut.validated (E : EmailStr) (u : UserOut) : Option UserOut :=
  match E.validate u.email with
  | .ok address => some { u with email := address }
  | .error _ => none

def MemberOut.validated (E : EmailStr) (m : MemberOut) : Option MemberOut :=
  (fun user => { m with user := user }) <$> m.user.validated E

def TaskOut.validated (E : EmailStr) (t : TaskOut) : Option TaskOut :=
  match t.assignee with
  | none => some t
  | some u => (fun user => { t with assignee := some user }) <$> u.validated E

def CommentOut.validated (E : EmailStr) (m : CommentOut) : Option CommentOut :=
  (fun user => { m with user := user }) <$> m.user.validated E

def FileOut.validated (E : EmailStr) (f : FileOut) : Option FileOut :=
  (fun user => { f with uploader := user }) <$> f.uploader.validated E

def KanbanBoard.validated (E : EmailStr) (b : KanbanBoard) : Option KanbanBoard := do
  let todo ← b.todo.mapM (TaskOut.validated E)
  let inProgress ← b.inProgress.mapM (TaskOut.validated E)
  let inReview ← b.inReview.mapM (TaskOut.validated E)
  KanbanBoard.mk todo inProgress inReview <$> b.done.mapM (TaskOut.validated E)

def DashboardReport.validated (E : EmailStr) (r : DashboardReport) : Option DashboardReport := do
  let recent ← r.recentTasks.mapM (TaskOut.validated E)
  (fun upcoming => { r with recentTasks := recent, upcomingDeadlines := upcoming }) <$>
    r.upcomingDeadlines.mapM (TaskOut.validated E)

def Data.validated (E : EmailStr) : Data → Option Data
  | user u => user <$> u.validated E
  | users us => users <$> us.mapM (UserOut.validated E)
  | login access refresh u => login access refresh <$> u.validated E
  | projectDetail p => (fun members => projectDetail { p with members := members }) <$> p.members.mapM (MemberOut.validated E)
  | member m => member <$> m.validated E
  | task t => task <$> t.validated E
  | tasks ts => tasks <$> ts.mapM (TaskOut.validated E)
  | board b => board <$> b.validated E
  | comment m => comment <$> m.validated E
  | comments ms => comments <$> ms.mapM (CommentOut.validated E)
  | attachment f => attachment <$> f.validated E
  | attachments fs => attachments <$> fs.mapM (FileOut.validated E)
  | report r => report <$> r.validated E
  | data => some data

/-- One whole request: the handler, then its response. -/
def serve (E : EmailStr) (D : Deployment) (c : Call) (r : Request) : App ApiResponse := do
  let response ← handle D c r
  let data ← Tx.orRaise (response.data.validated E) .unexpected
  pure { response with data := data }

def servedOutcome (E : EmailStr) (D : Deployment) (i : Input) (w : World) : Outcome := ((serve E D i.call i.request).run w).1

def servedNext (E : EmailStr) (D : Deployment) (i : Input) (w : World) : World := ((serve E D i.call i.request).run w).2

def servedWorld (E : EmailStr) (D : Deployment) : Event → World → World
  | .request i, w => servedNext E D i w
  | .seedAdmin c email password fullName, w => nextWorld D (.seedAdmin c email password fullName) w

def servedFrom (E : EmailStr) (D : Deployment) (w : World) (es : List Event) : World :=
  es.foldl (fun w e => servedWorld E D e w) w

def ServedReachable (E : EmailStr) (D : Deployment) (w : World) : Prop :=
  ∃ es, Run (servedWorld E D) FreshIds World.initial es w

/-! A response is sent exactly when every account in it has an address. -/

section Accounts

variable {E : EmailStr}

theorem isSome_fmap {α β : Type} {f : α → β} {x : Option α} : (f <$> x).isSome = x.isSome := Option.isSome_map

theorem isSome_mapM {α β : Type} {f : α → Option β} {xs : List α} : (xs.mapM f).isSome = xs.all (fun x => (f x).isSome) := by
  induction xs with
  | nil => rfl
  | cons x xs ih =>
    rw [List.mapM_cons, List.all_cons, ← ih]
    cases hx : f x with
    | none => rfl
    | some y => cases xs.mapM f <;> rfl

theorem isSome_bind {α β : Type} {x : Option α} {f : α → Option β} {b : Bool} (h : ∀ a, (f a).isSome = b) :
    (x >>= f).isSome = (x.isSome && b) := by
  cases x with
  | none => rfl
  | some a => exact h a

def TaskOut.users (t : TaskOut) : List UserOut := t.assignee.toList

/-- The accounts a response shows. -/
def Data.accounts : Data → List UserOut
  | user u => [u]
  | users us => us
  | login _ _ u => [u]
  | projectDetail p => p.members.map MemberOut.user
  | member m => [m.user]
  | task t => t.users
  | tasks ts => ts.flatMap TaskOut.users
  | board b => (b.todo ++ b.inProgress ++ b.inReview ++ b.done).flatMap TaskOut.users
  | comment m => [m.user]
  | comments ms => ms.map CommentOut.user
  | attachment f => [f.uploader]
  | attachments fs => fs.map FileOut.uploader
  | report r => (r.recentTasks ++ r.upcomingDeadlines).flatMap TaskOut.users
  | _ => []

@[simp] theorem UserOut.isSome_validated {u : UserOut} : (u.validated E).isSome = E.accepts u.email := by
  unfold validated EmailStr.accepts
  cases E.validate u.email <;> rfl

@[simp] theorem MemberOut.isSome_validated {m : MemberOut} : (m.validated E).isSome = E.accepts m.user.email := by
  simp [validated]

@[simp] theorem TaskOut.isSome_validated {t : TaskOut} : (t.validated E).isSome = t.users.all (fun u => E.accepts u.email) := by
  unfold validated users
  cases t.assignee <;> simp

@[simp] theorem CommentOut.isSome_validated {m : CommentOut} : (m.validated E).isSome = E.accepts m.user.email := by
  simp [validated]

@[simp] theorem FileOut.isSome_validated {f : FileOut} : (f.validated E).isSome = E.accepts f.uploader.email := by
  simp [validated]

theorem KanbanBoard.isSome_validated {b : KanbanBoard} : (b.validated E).isSome =
    (b.todo ++ b.inProgress ++ b.inReview ++ b.done).all (fun t => (t.validated E).isSome) := by
  rw [validated, isSome_bind fun _ => isSome_bind fun _ => isSome_bind fun _ => isSome_fmap]
  simp only [isSome_mapM, List.all_append, Bool.and_assoc]

theorem DashboardReport.isSome_validated {r : DashboardReport} : (r.validated E).isSome =
    (r.recentTasks ++ r.upcomingDeadlines).all (fun t => (t.validated E).isSome) := by
  rw [validated, isSome_bind fun _ => isSome_fmap]
  simp only [isSome_mapM, List.all_append]

theorem Data.isSome_validated {data : Data} : (data.validated E).isSome = data.accounts.all (fun u => E.accepts u.email) := by
  cases data with
  | board b => simp [validated, accounts, KanbanBoard.isSome_validated, List.all_flatMap]
  | report r => simp [validated, accounts, DashboardReport.isSome_validated, List.all_flatMap]
  | _ => simp [validated, accounts, isSome_mapM, List.all_flatMap, Function.comp_def]

end Accounts

/-! A request that is served takes the step of its handler; one whose response fails leaves the tables as they were. -/

section Steps

variable {E : EmailStr} {D : Deployment} {c : Call} {r : Request} {i : Input} {e : Event} {w : World} {a : ApiResponse}

theorem handle_uncommitted (h : ∀ token, r ≠ .refresh token) : Tx.Uncommitted (handle D c r) := by
  cases r with
  | refresh token => exact absurd rfl (h token)
  | _ => unfold handle; infer_instance

theorem refresh_accounts {token : String} (ok : outcome D ⟨c, .refresh token⟩ w = .ok a) : a.data.accounts = [] := by
  obtain ⟨t, h, -⟩ := succeeds_of_outcome ok
  simp only [handle, Routes.refresh, Tx.succeeds_bind, Tx.succeeds_pure] at h
  obtain ⟨pair, _, -, rfl, -⟩ := h
  rfl

theorem served_of_validated {data : Data} (ok : outcome D i w = .ok a) (valid : a.data.validated E = some data) :
    servedOutcome E D i w = .ok { a with data := data } ∧ servedNext E D i w = next D i w := by
  obtain ⟨t, h, hnext⟩ := succeeds_of_outcome ok
  have hserved : (serve E D i.call i.request).Succeeds ⟨w.1, w.1, w.2⟩ { a with data := data } t :=
    h.bind ((Tx.succeeds_orRaise.mpr ⟨valid, rfl⟩).bind (Tx.succeeds_pure.mpr ⟨rfl, rfl⟩))
  have hrun := Tx.run_of_succeeds hserved
  rw [hnext]
  exact ⟨congrArg Prod.fst hrun, congrArg Prod.snd hrun⟩

theorem raises_of_outcome {error : Raised} (h : outcome D i w = .error error) :
    ∃ t, (handle D i.call i.request).Raises ⟨w.1, w.1, w.2⟩ error t ∧ next D i w = (t.committed, t.outside) := by
  simp only [outcome, next, step, Tx.run, Tx.Raises] at h ⊢
  generalize handle D i.call i.request ⟨w.1, w.1, w.2⟩ = x at h ⊢
  rcases x with ⟨_ | response, t⟩
  · exact ⟨t, Prod.ext h rfl, rfl⟩
  · simp at h

theorem served_of_error {error : Raised} (h : outcome D i w = .error error) :
    servedOutcome E D i w = .error error ∧ servedNext E D i w = next D i w := by
  obtain ⟨t, raises, hnext⟩ := raises_of_outcome h
  have hrun : (serve E D i.call i.request).run w = _ := Tx.run_of_raises raises.bind
  rw [hnext]
  exact ⟨congrArg Prod.fst hrun, congrArg Prod.snd hrun⟩

theorem served_of_refused (ok : outcome D i w = .ok a) (refused : a.data.accounts.all (fun u => E.accepts u.email) = false) :
    servedOutcome E D i w = .error .unexpected ∧ servedNext E D i w = (w.1, (next D i w).2) := by
  have hfails : a.data.validated E = none := by
    simpa using Data.isSome_validated.trans refused
  have hother : ∀ token, i.request ≠ .refresh token := by
    intro token hrefresh
    obtain ⟨c, r⟩ := i
    obtain rfl : r = .refresh token := hrefresh
    rw [refresh_accounts ok] at refused
    simp at refused
  obtain ⟨t, h, hnext⟩ := succeeds_of_outcome ok
  have hkeeps : (handle D i.call i.request ⟨w.1, w.1, w.2⟩).2.committed = w.1 := (handle_uncommitted hother).keeps _
  rw [show handle D i.call i.request ⟨w.1, w.1, w.2⟩ = (.ok a, t) from h] at hkeeps
  have hserved : (serve E D i.call i.request).Raises ⟨w.1, w.1, w.2⟩ .unexpected t := by
    refine h.bind_raises (Tx.Raises.bind ?_)
    rw [hfails]
    exact Tx.raises_ofExcept
  have hrun := Tx.run_of_raises hserved
  rw [hnext, ← hkeeps]
  exact ⟨congrArg Prod.fst hrun, congrArg Prod.snd hrun⟩

theorem served_cases (E : EmailStr) (D : Deployment) (i : Input) (w : World) :
    (∃ a data, outcome D i w = .ok a ∧ a.data.validated E = some data ∧ servedOutcome E D i w = .ok { a with data := data } ∧
      servedNext E D i w = next D i w) ∨
    (∃ a, outcome D i w = .ok a ∧ a.data.accounts.all (fun u => E.accepts u.email) = false ∧
      servedOutcome E D i w = .error .unexpected ∧ servedNext E D i w = (w.1, (next D i w).2)) ∨
    ∃ error, outcome D i w = .error error ∧ servedOutcome E D i w = .error error ∧ servedNext E D i w = next D i w := by
  cases h : outcome D i w with
  | error error => exact Or.inr (Or.inr ⟨error, rfl, served_of_error h⟩)
  | ok a =>
    cases valid : a.data.validated E with
    | some data => exact Or.inl ⟨a, data, rfl, valid, served_of_validated h valid⟩
    | none =>
      have hrefused : a.data.accounts.all (fun u => E.accepts u.email) = false := by
        rw [← Data.isSome_validated, valid]
        rfl
      exact Or.inr (Or.inl ⟨a, rfl, hrefused, served_of_refused h hrefused⟩)

theorem servedWorld_cases (E : EmailStr) (D : Deployment) (e : Event) (w : World) :
    servedWorld E D e w = nextWorld D e w ∨ (servedWorld E D e w).1 = w.1 := by
  cases e with
  | seedAdmin c email password fullName => exact Or.inl rfl
  | request i =>
    rcases served_cases E D i w with ⟨_, _, _, _, _, h⟩ | ⟨_, _, _, _, h⟩ | ⟨_, _, _, h⟩
    · exact Or.inl h
    · have hkept : (servedNext E D i w).1 = w.1 := by rw [h]
      exact Or.inr hkept
    · exact Or.inl h

/-- Whether the response, if there is one, shows addresses only. -/
def Event.shown (E : EmailStr) (D : Deployment) : Event → World → Bool
  | .request i, w =>
    match outcome D i w with
    | .ok a => a.data.accounts.all (fun u => E.accepts u.email)
    | .error _ => true
  | .seedAdmin .., _ => true

theorem servedWorld_of_shown (h : e.shown E D w = true) : servedWorld E D e w = nextWorld D e w := by
  cases e with
  | seedAdmin c email password fullName => rfl
  | request i =>
    rcases served_cases E D i w with ⟨_, _, _, _, _, hnext⟩ | ⟨a, ok, refused, -⟩ | ⟨_, _, _, hnext⟩
    · exact hnext
    · simp only [Event.shown, ok, refused] at h
      exact absurd h (by decide)
    · exact hnext

theorem servedWorld_of_not_shown (h : e.shown E D w = false) : (servedWorld E D e w).1 = w.1 := by
  cases e with
  | seedAdmin c email password fullName => exact absurd h (by simp [Event.shown])
  | request i =>
    rcases served_cases E D i w with ⟨a, data, ok, valid, -, -⟩ | ⟨_, _, _, _, hnext⟩ | ⟨error, refused, -, -⟩
    · have hshown : (a.data.validated E).isSome = true := by rw [valid, Option.isSome_some]
      rw [Data.isSome_validated] at hshown
      simp only [Event.shown, ok, hshown] at h
      exact absurd h (by decide)
    · have hkept : (servedNext E D i w).1 = w.1 := by rw [hnext]
      exact hkept
    · simp only [Event.shown, refused] at h
      exact absurd h (by decide)

/-- A run whose responses show addresses only is served as the handlers have it. -/
theorem served_of_execution {ok : Event → World → Prop} {es : List Event} {w' : World} (run : Execution D ok w es w')
    (h : along D (Event.shown E D) w es = true) : Run (servedWorld E D) ok w es w' := by
  induction run with
  | nil w => exact .nil w
  | @cons e w es w' hok rest ih =>
    rw [along, Bool.and_eq_true] at h
    have hnext := servedWorld_of_shown h.1
    refine .cons hok ?_
    rw [hnext]
    exact ih h.2

theorem servedReachable_of_freshRun {es : List Event} (h : freshRun D World.initial es = true)
    (shown : along D (Event.shown E D) World.initial es = true) : ServedReachable E D (playFrom D World.initial es) :=
  ⟨es, served_of_execution (execution_of_freshRun h (fun _ => rfl) rfl) shown⟩

theorem ServedReachable.schema (h : ServedReachable E D w) : Schema D w.1 := by
  obtain ⟨es, run⟩ := h
  apply run.invariant (I := fun w => Schema D w.1) ?_ schema_initial
  intro e w _ schema
  rcases servedWorld_cases E D e w with hstep | hkept
  · rw [hstep]
    exact schema.step
  · rw [hkept]
    exact schema

end Steps

end ProjectManagement
