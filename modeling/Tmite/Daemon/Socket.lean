import Tmite.Lib.TaskList
import Tmite.Lib.Transition
import Mathlib.Logic.Function.Basic

namespace Tmite.Daemon

open Transition TaskList

/-!
# Finding the daemon (`fsio.rs`, `daemon/ipc.rs`, `daemon/mod.rs`, `tmite/src/main.rs`)

`serve` removes whatever is at its socket path and binds there, `run` removes the path once more
when it is stopped, and a crash leaves it behind.  An admin command tries the candidate paths in
turn and takes the first that answers.  Daemons come and go, and every step of theirs falls between
two attempts of a command in every possible way.

Of the system it is assumed that a path names the socket that was bound there last and not removed
since; that to connect there fails with `NotFound` if there is none, is refused if nobody listens on
it, and may be denied; and that `bind` fails on a path that exists.

* `daemon_found` — as long as no two live daemons share a path, a command that gives up has tried
  every path its daemon could be at, and found it not listening there or was denied.
-/

/-! ### Paths -/

/-- `Path::join`, for a relative name. -/
def join (dir name : String) : String :=
  if dir.toList = [] ∨ dir.toList.getLast? = some '/' then dir ++ name else dir ++ "/" ++ name

/-- `runtime_base`, where `runtimeDir` is `dirs::runtime_dir()`. -/
def runtimeBase (runtimeDir : Option String) : Option String := runtimeDir.map (join · "tmite")

/-- `default_socket_path`. -/
def defaultSocketPath (runtimeDir : Option String) : String :=
  join ((runtimeBase runtimeDir).getD "/run/tmite") "daemon.sock"

/-- `candidate_socket_paths_with`. -/
def candidateSocketPathsWith (explicit runtime : Option String) : List String :=
  match explicit with
  | some path => [path]
  | none => (runtime.map (join · "daemon.sock")).toList ++ [join "/run/tmite" "daemon.sock"]

/-- `candidate_socket_paths`. -/
def candidateSocketPaths (explicit runtimeDir : Option String) : List String :=
  candidateSocketPathsWith explicit (runtimeBase runtimeDir)

/-- The socket path `main` gives the daemon. -/
def socketPath (explicit runtimeDir : Option String) : String :=
  explicit.getD (defaultSocketPath runtimeDir)

/-- A daemon with the same options is at a candidate path, and so is one of the system's, which has
    no runtime directory. -/
theorem socketPath_mem (explicit runtimeDir : Option String) :
    socketPath explicit runtimeDir ∈ candidateSocketPaths explicit runtimeDir ∧
      (explicit = none → socketPath none none ∈ candidateSocketPaths explicit runtimeDir) := by
  cases explicit with
  | some path =>
    simp [socketPath, candidateSocketPaths, candidateSocketPathsWith]
  | none =>
    cases runtimeDir <;>
      simp [socketPath, candidateSocketPaths, candidateSocketPathsWith, defaultSocketPath,
        runtimeBase]

/-! ### Daemons -/

/-- Where the task of `serve` stands. -/
inductive ServePc
  | createDir
  | removeOld
  /-- About to bind; `cleared` says that the removal did not fail. -/
  | bind (cleared : Bool)
  /-- `UnixListener::bind` has bound the socket and does not listen yet. -/
  | bound
  | accepting
  /-- `IPC server failed`: the daemon runs on without it. -/
  | failed
deriving DecidableEq

/-- A process of `tmite daemon`. -/
structure Process where
  path : String
  serve : ServePc
  /-- `run` has removed the path, on its way out. -/
  stopping : Bool
  alive : Bool
deriving DecidableEq

def Process.accepts (p : Process) : Bool := p.alive && p.serve == .accepting

/-! ### A command -/

inductive ConnectError
  | notFound
  | refused
  | denied
deriving DecidableEq

/-- How `ipc_connect` fails. -/
inductive SearchError
  | cannotConnect (path : String) (e : ConnectError)
  | notFound (tried : List String)
deriving DecidableEq

/-- An attempt at a path; `listener` is the daemon that was up there, accepting and not about to
    stop. -/
structure Attempt where
  path : String
  listener : Option ℕ
  denied : Bool
  got : Except ConnectError ℕ

/-- A run of `ipc_connect` of a command with those options. -/
structure Search where
  explicit : Option String
  runtimeDir : Option String
  /-- The paths the loop has not come to yet. -/
  rest : List String
  lastErr : Option (String × ConnectError)
  outcome : Option (Except SearchError ℕ)
  attempts : List Attempt

def Search.start (explicit runtimeDir : Option String) : Search :=
  ⟨explicit, runtimeDir, candidateSocketPaths explicit runtimeDir, none, none, []⟩

/-- The body of the loop, for one path. -/
def Search.onConnect (c : Search) (path : String) : Except ConnectError ℕ → Search
  | .ok i => { c with outcome := some (.ok i) }
  | .error e =>
    { c with lastErr := if e = .notFound then c.lastErr else some (path, e) }

/-- An attempt is made, and `rest` is left to try. -/
def Search.attempt (c : Search) (rest : List String) (a : Attempt) : Search :=
  { c with rest := rest, attempts := c.attempts ++ [a] }.onConnect a.path a.got

/-- After the loop. -/
def Search.giveUp (c : Search) : Search :=
  { c with outcome := some (.error (match c.lastErr with
      | some (path, e) => .cannotConnect path e
      | none => .notFound (candidateSocketPaths c.explicit c.runtimeDir))) }

/-! ### Steps -/

structure Sockets where
  /-- The process that bound what is at a path. -/
  files : String → Option ℕ
  procs : List Process
  searches : List Search

inductive SocketAct
  /-- A daemon is started. -/
  | start (explicit runtimeDir : Option String)
  | createDir (i : ℕ) (ok : Bool)
  | removeOld (i : ℕ) (ok : Bool)
  | bind (i : ℕ) (ok : Bool)
  | listen (i : ℕ)
  /-- Ctrl-C: `run` removes the path. -/
  | stop (i : ℕ) (ok : Bool)
  /-- The process ends, stopped or not. -/
  | exit (i : ℕ)
  /-- A command looks for the daemon. -/
  | search (explicit runtimeDir : Option String)
  | connect (k : ℕ) (denied : Bool)

namespace Sockets

/-- What is at `path` is removed; a path that does not exist is none to remove. -/
def remove (w : Sockets) (path : String) (ok : Bool) : Sockets :=
  if ok then { w with files := Function.update w.files path none } else w

def setProc (w : Sockets) (i : ℕ) (p : Process) : Sockets := { w with procs := w.procs.set i p }

/-- The daemon that is up at `path` to stay. -/
def listener (w : Sockets) (path : String) : Option ℕ :=
  w.procs.findIdx? fun p => p.accepts && !p.stopping && p.path == path

/-- `UnixStream::connect`. -/
def connect (w : Sockets) (path : String) (denied : Bool) : Except ConnectError ℕ :=
  if denied then .error .denied
  else
    match w.files path with
    | none => .error .notFound
    | some i => if (w.procs[i]?).any Process.accepts then .ok i else .error .refused

/-- A step, where it is enabled. -/
def next (w : Sockets) : SocketAct → Option Sockets
  | .start explicit runtimeDir =>
    some { w with
      procs := w.procs ++ [⟨socketPath explicit runtimeDir, .createDir, false, true⟩] }
  | .createDir i ok =>
    w.procs[i]?.bind fun p =>
      if p.alive ∧ p.serve = .createDir then
        some (w.setProc i { p with serve := if ok then .removeOld else .failed })
      else none
  -- the result of the removal is ignored
  | .removeOld i ok =>
    w.procs[i]?.bind fun p =>
      if p.alive ∧ p.serve = .removeOld then
        some ((w.remove p.path ok).setProc i { p with serve := .bind ok })
      else none
  | .bind i ok =>
    w.procs[i]?.bind fun p => match p.serve with
    | .bind _ =>
      if p.alive = false then none
      else if ok ∧ w.files p.path = none then
        some { w with
          files := Function.update w.files p.path (some i)
          procs := w.procs.set i { p with serve := .bound } }
      else some (w.setProc i { p with serve := .failed })
    | _ => none
  | .listen i =>
    w.procs[i]?.bind fun p =>
      if p.alive ∧ p.serve = .bound then some (w.setProc i { p with serve := .accepting })
      else none
  | .stop i ok =>
    w.procs[i]?.bind fun p =>
      if p.alive ∧ p.stopping = false then
        some ((w.remove p.path ok).setProc i { p with stopping := true })
      else none
  | .exit i =>
    w.procs[i]?.bind fun p => if p.alive then some (w.setProc i { p with alive := false }) else none
  | .search explicit runtimeDir =>
    some { w with searches := w.searches ++ [.start explicit runtimeDir] }
  | .connect k denied =>
    w.searches[k]?.bind fun c => match c.outcome, c.rest with
    | some _, _ => none
    | none, [] => some { w with searches := w.searches.set k c.giveUp }
    | none, path :: rest =>
      let a : Attempt := ⟨path, w.listener path, denied, w.connect path denied⟩
      some { w with searches := w.searches.set k (c.attempt rest a) }

end Sockets

def socketSystem : System Sockets SocketAct where
  init w := w = Sockets.mk (fun _ => none) [] []
  next := Sockets.next

/-- No daemon is started at a path where another one still runs. -/
def Exclusive (w : Sockets) : SocketAct → Prop
  | .start explicit runtimeDir =>
    ∀ p ∈ w.procs, p.alive = true → p.path ≠ socketPath explicit runtimeDir
  | _ => True

instance (w : Sockets) (a : SocketAct) : Decidable (Exclusive w a) :=
  match a with
  | .start explicit runtimeDir =>
    inferInstanceAs (Decidable (∀ p ∈ w.procs, p.alive = true →
      p.path ≠ socketPath explicit runtimeDir))
  | .createDir _ _ | .removeOld _ _ | .bind _ _ | .listen _ | .stop _ _ | .exit _ | .search _ _
  | .connect _ _ => inferInstanceAs (Decidable True)

/-! ### Who has the path -/

/-- A path belongs to the one daemon that lives there. -/
structure SocketInv (w : Sockets) : Prop where
  alone : ∀ (i j : ℕ) (p q : Process), w.procs[i]? = some p → w.procs[j]? = some q →
    p.alive = true → q.alive = true → p.path = q.path → i = j
  owned : ∀ (i : ℕ) (p : Process), w.procs[i]? = some p → p.alive = true →
    p.serve = .bound ∨ p.serve = .accepting → p.stopping = false → w.files p.path = some i
  cleared : ∀ (i : ℕ) (p : Process), w.procs[i]? = some p → p.alive = true →
    p.serve = .bind true → w.files p.path = none

section Daemons

variable {w w' : Sockets} {i : ℕ} {p : Process}

/-- A live daemon moves on, and touches no path but its own. -/
theorem SocketInv.moved (h : SocketInv w) (p' : Process) (hp : w.procs[i]? = some p)
    (halive : p.alive = true) (hpath : p'.path = p.path) {files : String → Option ℕ}
    (hfiles : ∀ path, path ≠ p.path → files path = w.files path)
    (howned : p'.alive = true → p'.serve = .bound ∨ p'.serve = .accepting → p'.stopping = false →
      files p.path = some i)
    (hcleared : p'.alive = true → p'.serve = .bind true → files p.path = none) :
    SocketInv { w with files := files, procs := w.procs.set i p' } := by
  have hget : ∀ (j : ℕ) (q : Process), (w.procs.set i p')[j]? = some q →
      (j = i ∧ q = p') ∨ (j ≠ i ∧ w.procs[j]? = some q) := by
    intro j q hq
    by_cases hji : j = i
    · subst hji
      rw [List.getElem?_set_self (List.getElem?_eq_some_iff.mp hp).1] at hq
      exact .inl ⟨rfl, (Option.some.inj hq).symm⟩
    · rw [List.getElem?_set_ne (Ne.symm hji)] at hq
      exact .inr ⟨hji, hq⟩
  have hother : ∀ (j : ℕ) (q : Process), j ≠ i → w.procs[j]? = some q → q.alive = true →
      q.path ≠ p.path :=
    fun j q hji hq hqa heq => hji (h.alone j i q p hq hp hqa halive heq)
  refine ⟨fun j k q r hq hr hqa hra heq => ?_, fun j q hq hqa hserve hstop => ?_,
    fun j q hq hqa hserve => ?_⟩
  · rcases hget j q hq with ⟨rfl, rfl⟩ | ⟨hji, hq₀⟩ <;>
      rcases hget k r hr with ⟨rfl, rfl⟩ | ⟨hki, hr₀⟩
    · rfl
    · exact absurd (heq.symm.trans hpath) (hother k r hki hr₀ hra)
    · exact absurd (heq.trans hpath) (hother j q hji hq₀ hqa)
    · exact h.alone j k q r hq₀ hr₀ hqa hra heq
  · rcases hget j q hq with ⟨rfl, rfl⟩ | ⟨hji, hq⟩
    · rw [hpath]
      exact howned hqa hserve hstop
    · show files q.path = some j
      rw [hfiles _ (hother j q hji hq hqa)]
      exact h.owned j q hq hqa hserve hstop
  · rcases hget j q hq with ⟨rfl, rfl⟩ | ⟨hji, hq⟩
    · rw [hpath]
      exact hcleared hqa hserve
    · show files q.path = none
      rw [hfiles _ (hother j q hji hq hqa)]
      exact h.cleared j q hq hqa hserve

/-- A live daemon moves on without touching a path. -/
theorem SocketInv.setProc (h : SocketInv w) (p' : Process) (hp : w.procs[i]? = some p)
    (halive : p.alive = true) (hpath : p'.path = p.path)
    (howned : p'.alive = true → p'.serve = .bound ∨ p'.serve = .accepting → p'.stopping = false →
      w.files p.path = some i)
    (hcleared : p'.alive = true → p'.serve = .bind true → w.files p.path = none) :
    SocketInv (w.setProc i p') :=
  h.moved p' hp halive hpath (fun _ _ => rfl) howned hcleared

/-- A live daemon removes its path, or fails to. -/
theorem SocketInv.remove (h : SocketInv w) (p' : Process) (hp : w.procs[i]? = some p)
    (halive : p.alive = true) (hpath : p'.path = p.path) {ok : Bool}
    (hup : p'.alive = true → p'.serve = .bound ∨ p'.serve = .accepting → p'.stopping = true)
    (hcleared : p'.serve = .bind true → ok = true ∨ p.serve = .bind true) :
    SocketInv ((w.remove p.path ok).setProc i p') := by
  have hnone : p'.alive = true → p'.serve = .bound ∨ p'.serve = .accepting →
      p'.stopping = false → False := fun ha hs hstop => by
    rw [hup ha hs] at hstop
    exact absurd hstop (by simp)
  cases ok with
  | true =>
    exact h.moved p' hp halive hpath (fun path hne => Function.update_of_ne hne _ _)
      (fun ha hs hstop => (hnone ha hs hstop).elim) (fun _ _ => Function.update_self _ _ _)
  | false =>
    refine h.moved p' hp halive hpath (fun _ _ => rfl) (fun ha hs hstop => (hnone ha hs hstop).elim)
      (fun _ hs => ?_)
    rcases hcleared hs with hbad | hwas
    · exact absurd hbad (by simp)
    · exact h.cleared i p hp halive hwas

/-- A daemon is started where none runs. -/
theorem SocketInv.start (h : SocketInv w) {path : String}
    (hfree : ∀ p ∈ w.procs, p.alive = true → p.path ≠ path) :
    SocketInv { w with procs := w.procs ++ [⟨path, .createDir, false, true⟩] } := by
  have hget : ∀ (j : ℕ) (q : Process),
      (w.procs ++ [⟨path, .createDir, false, true⟩])[j]? = some q →
      w.procs[j]? = some q ∨ j = w.procs.length ∧ q = ⟨path, .createDir, false, true⟩ :=
    fun j q hq => getElem?_concat_cases hq
  refine ⟨fun j k q r hq hr hqa hra heq => ?_, fun j q hq hqa hserve hstop => ?_,
    fun j q hq hqa hserve => ?_⟩
  · rcases hget j q hq with hq₀ | ⟨rfl, rfl⟩ <;> rcases hget k r hr with hr₀ | ⟨rfl, rfl⟩
    · exact h.alone j k q r hq₀ hr₀ hqa hra heq
    · exact absurd heq (hfree q (List.mem_of_getElem? hq₀) hqa)
    · exact absurd heq.symm (hfree r (List.mem_of_getElem? hr₀) hra)
    · rfl
  · rcases hget j q hq with hq₀ | ⟨-, rfl⟩
    · exact h.owned j q hq₀ hqa hserve hstop
    · exact absurd hserve (by simp)
  · rcases hget j q hq with hq₀ | ⟨-, rfl⟩
    · exact h.cleared j q hq₀ hqa hserve
    · exact absurd hserve (by simp)

theorem SocketInv.next {a : SocketAct} (h : SocketInv w) (hC : Exclusive w a)
    (hn : w.next a = some w') : SocketInv w' := by
  cases a with
  | start explicit runtimeDir => cases hn; exact h.start hC
  | createDir i ok =>
    obtain ⟨p, hp, hn⟩ := Option.bind_eq_some_iff.mp hn
    split at hn
    · rename_i hpc
      cases hn
      refine h.setProc { p with serve := if ok then .removeOld else .failed } hp hpc.1 rfl
        (fun _ hs => ?_) (fun _ hs => ?_) <;> cases ok <;> simp at hs
    · exact absurd hn (by simp)
  | removeOld i ok =>
    obtain ⟨p, hp, hn⟩ := Option.bind_eq_some_iff.mp hn
    split at hn
    · rename_i hpc
      cases hn
      refine h.remove { p with serve := .bind ok } hp hpc.1 rfl (fun _ hs => ?_) (fun hs => ?_)
      · simp at hs
      · exact .inl (by simpa using hs)
    · exact absurd hn (by simp)
  | bind i ok =>
    obtain ⟨p, hp, hn⟩ := Option.bind_eq_some_iff.mp hn
    split at hn
    · split at hn
      · exact absurd hn (by simp)
      · rename_i hdead
        have halive : p.alive = true := by simpa using hdead
        split at hn
        · -- the path is this daemon's from here on
          cases hn
          exact h.moved { p with serve := .bound } hp halive rfl
            (fun path hne => Function.update_of_ne hne _ _)
            (fun _ _ _ => Function.update_self _ _ _) (fun _ hs => by simp at hs)
        · cases hn
          exact h.setProc { p with serve := .failed } hp halive rfl (fun _ hs => by simp at hs)
            (fun _ hs => by simp at hs)
    · exact absurd hn (by simp)
  | listen i =>
    obtain ⟨p, hp, hn⟩ := Option.bind_eq_some_iff.mp hn
    split at hn
    · rename_i hpc
      cases hn
      exact h.setProc { p with serve := .accepting } hp hpc.1 rfl
        (fun _ _ hstop => h.owned i p hp hpc.1 (.inl hpc.2) hstop)
        (fun _ hs => by simp at hs)
    · exact absurd hn (by simp)
  | stop i ok =>
    obtain ⟨p, hp, hn⟩ := Option.bind_eq_some_iff.mp hn
    split at hn
    · rename_i hpc
      cases hn
      exact h.remove { p with stopping := true } hp hpc.1 rfl (fun _ _ => rfl) (fun hs => .inr hs)
    · exact absurd hn (by simp)
  | exit i =>
    obtain ⟨p, hp, hn⟩ := Option.bind_eq_some_iff.mp hn
    split at hn
    · rename_i halive
      cases hn
      exact h.setProc { p with alive := false } hp halive rfl (fun ha => by simp at ha)
        (fun ha => by simp at ha)
    · exact absurd hn (by simp)
  | search explicit runtimeDir => cases hn; exact ⟨h.alone, h.owned, h.cleared⟩
  | connect k denied =>
    obtain ⟨c, -, hn⟩ := Option.bind_eq_some_iff.mp hn
    split at hn
    · exact absurd hn (by simp)
    · cases hn; exact ⟨h.alone, h.owned, h.cleared⟩
    · cases hn; exact ⟨h.alone, h.owned, h.cleared⟩

/-- A daemon that is up to stay has its path, so a connection there is one to it. -/
theorem SocketInv.connect (h : SocketInv w) {path : String} (hl : w.listener path = some i) :
    w.connect path false = .ok i := by
  obtain ⟨hi, hmatch, -⟩ := List.findIdx?_eq_some_iff_getElem.mp hl
  have hget : w.procs[i]? = some w.procs[i] := List.getElem?_eq_getElem hi
  simp only [Process.accepts, Bool.and_eq_true, Bool.not_eq_true', beq_iff_eq] at hmatch
  obtain ⟨⟨⟨halive, hserve⟩, hstop⟩, rfl⟩ := hmatch
  have hfile := h.owned i _ hget halive (.inr hserve) hstop
  simp [Sockets.connect, hfile, hget, Process.accepts, halive, hserve]

/-- A daemon that cleared its path can bind there. -/
theorem SocketInv.bind (h : SocketInv w) (hp : w.procs[i]? = some p) (halive : p.alive = true)
    (hserve : p.serve = .bind true) : ∃ w', w.next (.bind i true) = some w' ∧
      w'.procs[i]? = some { p with serve := .bound } := by
  refine ⟨{ w with
    files := Function.update w.files p.path (some i)
    procs := w.procs.set i { p with serve := .bound } }, ?_,
    List.getElem?_set_self (List.getElem?_eq_some_iff.mp hp).1⟩
  simp [Sockets.next, hp, hserve, halive, h.cleared i p hp halive hserve]

end Daemons

/-! ### What a command has seen -/

/-- What the command reports is what it came across: an attempt that failed for more than a missing
    socket, or that all sockets are missing. -/
def Search.Reports (c : Search) : SearchError → Prop
  | .cannotConnect path e => e ≠ .notFound ∧ ∃ a ∈ c.attempts, a.path = path ∧ a.got = .error e
  | .notFound tried => tried = candidateSocketPaths c.explicit c.runtimeDir ∧
      ∀ a ∈ c.attempts, a.got = .error .notFound

/-- Where the command is in its list, and what it came across. -/
structure SearchInv (c : Search) : Prop where
  /-- A daemon that was up to stay was found, unless the attempt was denied. -/
  seen : ∀ a ∈ c.attempts, ∀ i, a.listener = some i → a.denied = false → a.got = .ok i
  /-- The paths tried so far, and those left. -/
  order : candidateSocketPaths c.explicit c.runtimeDir = c.attempts.map Attempt.path ++ c.rest
  searching : c.outcome = none → ∀ a ∈ c.attempts, ∃ e, a.got = .error e
  found : ∀ i, c.outcome = some (.ok i) → ∃ pre a, c.attempts = pre ++ [a] ∧ a.got = .ok i ∧
    ∀ b ∈ pre, ∃ e, b.got = .error e
  lastErr : ∀ path e, c.lastErr = some (path, e) →
    e ≠ .notFound ∧ ∃ a ∈ c.attempts, a.path = path ∧ a.got = .error e
  missing : c.lastErr = none → ∀ a ∈ c.attempts, ∀ e, a.got = .error e → e = .notFound
  gaveUp : ∀ e, c.outcome = some (.error e) → c.rest = [] ∧ c.Reports e ∧
    ∀ a ∈ c.attempts, ∃ e, a.got = .error e

section Searches

variable {w w' : Sockets} {c : Search}

theorem searchInv_start (explicit runtimeDir : Option String) :
    SearchInv (.start explicit runtimeDir) :=
  ⟨by simp [Search.start], by simp [Search.start], by simp [Search.start], by simp [Search.start],
    by simp [Search.start], by simp [Search.start], by simp [Search.start]⟩

theorem SearchInv.giveUp (h : SearchInv c) (hout : c.outcome = none) (hrest : c.rest = []) :
    SearchInv c.giveUp := by
  refine ⟨h.seen, h.order, fun hnone => absurd hnone (by simp [Search.giveUp]),
    fun i hi => absurd hi (by simp [Search.giveUp]), h.lastErr, h.missing, fun e he => ?_⟩
  refine ⟨hrest, ?_, h.searching hout⟩
  simp only [Search.giveUp, Option.some.injEq, Except.error.injEq] at he
  rw [← he]
  cases hlast : c.lastErr with
  | none =>
    refine ⟨rfl, fun a ha => ?_⟩
    obtain ⟨e', hgot⟩ := h.searching hout a ha
    rw [hgot, h.missing hlast a ha e' hgot]
  | some p => exact h.lastErr p.1 p.2 hlast

/-- The next path of the list is tried. -/
theorem SearchInv.attempt (h : SearchInv c) (hout : c.outcome = none) {path : String}
    {rest : List String} (hrest : c.rest = path :: rest) {a : Attempt} (hpath : a.path = path)
    (hseen : ∀ i, a.listener = some i → a.denied = false → a.got = .ok i) :
    SearchInv (c.attempt rest a) := by
  have hbefore := h.searching hout
  have hseen' : ∀ b ∈ c.attempts ++ [a], ∀ i, b.listener = some i → b.denied = false →
      b.got = .ok i := fun b hb => by
    rcases List.mem_append.mp hb with hold | hnew
    · exact h.seen b hold
    · rw [List.mem_singleton.mp hnew]
      exact hseen
  have horder : candidateSocketPaths c.explicit c.runtimeDir =
      (c.attempts ++ [a]).map Attempt.path ++ rest := by
    rw [h.order, hrest, List.map_append, List.append_assoc, ← hpath]
    rfl
  unfold Search.attempt
  cases hgot : a.got with
  | ok i =>
    refine ⟨hseen', horder, fun hnone => absurd hnone (by simp [Search.onConnect]),
      fun j hj => ?_, fun p e he => ?_, fun hnone b hb e hbe => ?_,
      fun e he => absurd he (by simp [Search.onConnect])⟩
    · simp only [Search.onConnect, Option.some.injEq, Except.ok.injEq] at hj
      exact ⟨c.attempts, a, rfl, hj ▸ hgot, hbefore⟩
    · obtain ⟨hne, b, hb, hfound⟩ := h.lastErr p e he
      exact ⟨hne, b, List.mem_append_left _ hb, hfound⟩
    · rcases List.mem_append.mp hb with hold | hnew
      · exact h.missing hnone b hold e hbe
      · rw [List.mem_singleton.mp hnew, hgot] at hbe
        exact absurd hbe (by simp)
  | error e =>
    refine ⟨hseen', horder, fun _ b hb => ?_, fun j hj => ?_, fun p e' he' => ?_,
      fun hnone b hb e' hbe => ?_, fun e' he' => ?_⟩
    · rcases List.mem_append.mp hb with hold | hnew
      · exact hbefore b hold
      · rw [List.mem_singleton.mp hnew]
        exact ⟨e, hgot⟩
    · exact absurd hj (by simp [Search.onConnect, hout])
    · simp only [Search.onConnect] at he'
      split at he'
      · obtain ⟨hne, b, hb, hfound⟩ := h.lastErr p e' he'
        exact ⟨hne, b, List.mem_append_left _ hb, hfound⟩
      · rename_i hne
        cases he'
        exact ⟨hne, a, List.mem_append_right _ List.mem_cons_self, rfl, hgot⟩
    · simp only [Search.onConnect] at hnone
      split at hnone
      · rename_i heq
        rcases List.mem_append.mp hb with hold | hnew
        · exact h.missing hnone b hold e' hbe
        · rw [List.mem_singleton.mp hnew, hgot] at hbe
          rw [← Except.error.inj hbe, heq]
      · exact absurd hnone (by simp)
    · exact absurd he' (by simp [Search.onConnect, hout])

/-- What holds of every command in a run of exclusive daemons. -/
theorem searches_next (h : SocketInv w) (hs : ∀ c ∈ w.searches, SearchInv c) {a : SocketAct}
    (hn : w.next a = some w') : ∀ c ∈ w'.searches, SearchInv c := by
  have hsame : w'.searches = w.searches → ∀ c ∈ w'.searches, SearchInv c := fun heq => by
    rw [heq]
    exact hs
  cases a with
  | start explicit runtimeDir => cases hn; exact hs
  | createDir i ok | listen i | exit i =>
    obtain ⟨p, -, hn⟩ := Option.bind_eq_some_iff.mp hn
    split at hn
    · cases hn; exact hs
    · exact absurd hn (by simp)
  | removeOld i ok | stop i ok =>
    obtain ⟨p, -, hn⟩ := Option.bind_eq_some_iff.mp hn
    split at hn
    · cases hn
      refine hsame ?_
      show (w.remove p.path ok).searches = w.searches
      unfold Sockets.remove
      split <;> rfl
    · exact absurd hn (by simp)
  | bind i ok =>
    obtain ⟨p, -, hn⟩ := Option.bind_eq_some_iff.mp hn
    split at hn
    · split at hn
      · exact absurd hn (by simp)
      · split at hn <;> cases hn <;> exact hs
    · exact absurd hn (by simp)
  | search explicit runtimeDir =>
    cases hn
    intro c hc
    rcases List.mem_append.mp hc with hold | hnew
    · exact hs c hold
    · rw [List.mem_singleton.mp hnew]
      exact searchInv_start explicit runtimeDir
  | connect k denied =>
    obtain ⟨c₀, hc₀, hn⟩ := Option.bind_eq_some_iff.mp hn
    have hinv := hs c₀ (List.mem_of_getElem? hc₀)
    split at hn
    · exact absurd hn (by simp)
    · rename_i hout hrest
      cases hn
      intro c hc
      rcases List.mem_or_eq_of_mem_set hc with hold | rfl
      · exact hs c hold
      · exact hinv.giveUp hout hrest
    · rename_i path rest hout hrest
      cases hn
      intro c hc
      rcases List.mem_or_eq_of_mem_set hc with hold | rfl
      · exact hs c hold
      · refine hinv.attempt hout hrest rfl (fun i hl hd => ?_)
        have hd : denied = false := hd
        subst hd
        exact h.connect hl

end Searches

/-! ### Every run -/

/-- **The daemon is found.**  In every run in which no daemon is started at a path where another one
    still runs, with crashes, stops and leftover sockets: a daemon that could clear its path can
    bind there; a command that connects has reached a daemon at one of its candidate paths; and a
    command that gives up reports what it came across and has tried every path a daemon with its own
    options, or one of the system's, would be at, and at that moment was denied or no daemon was up
    there.  With `--socket-path` no other path is tried. -/
theorem daemon_found {w : Sockets} (h : Reach socketSystem Exclusive w) :
    (∀ (i : ℕ) (p : Process), w.procs[i]? = some p → p.alive = true → p.serve = .bind true →
      ∃ w', w.next (.bind i true) = some w' ∧
        w'.procs[i]? = some { p with serve := .bound }) ∧
    ∀ c ∈ w.searches,
      (∀ i, c.outcome = some (.ok i) → ∃ a ∈ c.attempts, a.got = .ok i ∧
        a.path ∈ candidateSocketPaths c.explicit c.runtimeDir) ∧
      (∀ e, c.outcome = some (.error e) → c.Reports e ∧ ∀ path,
        path = socketPath c.explicit c.runtimeDir ∨
          (c.explicit = none ∧ path = socketPath none none) →
        ∃ a ∈ c.attempts, a.path = path ∧ (a.denied = true ∨ a.listener = none)) ∧
      ∀ path, c.explicit = some path → ∀ a ∈ c.attempts, a.path = path := by
  obtain ⟨hsocket, hsearches⟩ : SocketInv w ∧ ∀ c ∈ w.searches, SearchInv c :=
    h.invariant (I := fun w => SocketInv w ∧ ∀ c ∈ w.searches, SearchInv c)
      (fun w h0 => by
        obtain rfl : w = Sockets.mk (fun _ => none) [] [] := h0
        exact ⟨⟨by simp, by simp, by simp⟩, by simp⟩)
      (fun _ _ _ _ hi hC hn => ⟨hi.1.next hC hn, searches_next hi.1 hi.2 hn⟩)
  refine ⟨fun i p hp halive hserve => hsocket.bind hp halive hserve, fun c hc => ?_⟩
  have hinv := hsearches c hc
  have hmem : ∀ a ∈ c.attempts, a.path ∈ candidateSocketPaths c.explicit c.runtimeDir :=
    fun a ha => by
      rw [hinv.order]
      exact List.mem_append_left _ (List.mem_map_of_mem ha)
  refine ⟨fun i hi => ?_, fun e he => ⟨(hinv.gaveUp e he).2.1, fun path hpath => ?_⟩,
    fun path hexplicit a ha => ?_⟩
  · obtain ⟨pre, a, hattempts, hgot, -⟩ := hinv.found i hi
    have ha : a ∈ c.attempts := by rw [hattempts]; simp
    exact ⟨a, ha, hgot, hmem a ha⟩
  · obtain ⟨hrest, -, hfailed⟩ := hinv.gaveUp e he
    have hcandidate : path ∈ candidateSocketPaths c.explicit c.runtimeDir := by
      rcases hpath with rfl | ⟨hnone, rfl⟩
      · exact (socketPath_mem _ _).1
      · exact (socketPath_mem _ _).2 hnone
    rw [hinv.order, hrest, List.append_nil] at hcandidate
    obtain ⟨a, ha, rfl⟩ := List.mem_map.mp hcandidate
    refine ⟨a, ha, rfl, ?_⟩
    obtain ⟨e', hgot⟩ := hfailed a ha
    by_contra hup
    rw [not_or, Bool.not_eq_true] at hup
    obtain ⟨i, hl⟩ := Option.ne_none_iff_exists'.mp hup.2
    rw [hinv.seen a ha i hl hup.1] at hgot
    exact absurd hgot (by simp)
  · have hone := hmem a ha
    rw [hexplicit] at hone
    simpa [candidateSocketPaths, candidateSocketPathsWith] using hone

/-- The steps of `serve` in process `i`. -/
def serveSteps (i : ℕ) : List SocketAct :=
  [.createDir i true, .removeOld i true, .bind i true, .listen i]

/-- A daemon crashes and is started again, while one command looks for it; another does after. -/
def crashRun : List SocketAct :=
  [.start none (some "/run/user/1000")] ++ serveSteps 0 ++
    [.exit 0, .search none (some "/run/user/1000"), .connect 0 false,
      .start none (some "/run/user/1000")] ++ serveSteps 1 ++
    [.connect 0 false, .connect 0 false, .search none (some "/run/user/1000"), .connect 1 false]

/-- The first command has come too early, the second finds the new daemon. -/
theorem daemon_found_crash : ∃ (w : Sockets) (c d : Search), Reach socketSystem Exclusive w ∧
    w.searches = [c, d] ∧
    (∃ a ∈ c.attempts, a.path = "/run/user/1000/tmite/daemon.sock" ∧
      (a.denied = true ∨ a.listener = none)) ∧
    ∃ a ∈ d.attempts, a.got = .ok 1 := by
  have hrun : ((exec socketSystem (fun w a => decide (Exclusive w a))
      (Sockets.mk (fun _ => none) [] []) crashRun).map fun w =>
        w.searches.map fun c => (c.explicit, c.runtimeDir, c.outcome)) =
      some [(none, some "/run/user/1000",
          some (.error (.cannotConnect "/run/user/1000/tmite/daemon.sock" .refused))),
        (none, some "/run/user/1000", some (.ok 1))] := by
    decide +kernel
  obtain ⟨w, hr, hview⟩ := reach_of_exec_map (C := Exclusive) (fun _ _ h => of_decide_eq_true h)
    hrun (.init rfl)
  obtain ⟨c, l, hw, hc, hl⟩ := List.map_eq_cons_iff.mp hview
  obtain ⟨d, rfl, hd⟩ := List.map_eq_singleton_iff.mp hl
  obtain ⟨-, hfound⟩ := daemon_found hr
  simp only [Prod.mk.injEq] at hc hd
  refine ⟨w, c, d, hr, hw, ?_, ?_⟩
  · refine ((hfound c (by simp [hw])).2.1 _ hc.2.2).2 _ (.inl ?_)
    rw [hc.1, hc.2.1]
    decide
  · obtain ⟨a, ha, hgot, -⟩ := (hfound d (by simp [hw])).1 1 hd.2.2
    exact ⟨a, ha, hgot⟩

end Tmite.Daemon
