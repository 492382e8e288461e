import Inks.Server.HandlerConfig
import Inks.Server.Protocol

/-
  How the server starts: the initializer reads two files,
  and `main` makes the address of the first and listens on
  it. What the files hold, how an address is read and who
  may listen on what is given with the start.

  Key definitions include:
    * `Settings`
    * `Initializer.parseSettings`, `Initializer.init`
    * `Startup.main`

  Key theorems include:
    * `Initializer.port_exact_iff`
    * `Startup.main_eq_some_iff`
    * `Startup.serves_files`
-/

------------------------------------------------------------
-- Settings
------------------------------------------------------------

namespace Inks

structure Settings where
  host : ByteString := text "127.0.0.1"
  port : UInt16 := 8080
  threads : Int32 := -1
deriving DecidableEq

/-
  A value in the global configuration. A number that is an
  integer is unsigned, unless it has a sign.
-/
inductive Setting where
| string (value : ByteString)
| unsigned (value : UInt64)
| signed (value : Int64)
| other
deriving DecidableEq

/- What `parse_from_file` makes of the file. -/
inductive GlobalConfig where
-- No file, an error in it, or nothing.
| empty
| object (members : List (ByteString × Setting))
| other
deriving DecidableEq

def GlobalConfig.isEmpty : GlobalConfig → Bool
| .empty => true
| .object members => members.isEmpty
| .other => false

namespace Initializer

/- A value of another type leaves the setting as it was. -/
def parseHost
    (members : List (ByteString × Setting))
    (settings : Settings) : Settings :=
  match members.lookup (text "host") with
  | some (.string host) => { settings with host := host }
  | _ => settings

/- The cast keeps the low bits of the number. -/
def parsePort
    (members : List (ByteString × Setting))
    (settings : Settings) : Settings :=
  match members.lookup (text "port") with
  | some (.unsigned port) =>
      { settings with port := port.toUInt16 }
  | _ => settings

def parseThreads
    (members : List (ByteString × Setting))
    (settings : Settings) : Settings :=
  match members.lookup (text "threads") with
  | some (.unsigned threads) =>
      { settings with threads := threads.toInt64.toInt32 }
  | some (.signed threads) =>
      { settings with threads := threads.toInt32 }
  | _ => settings

def parseSettings
    (settings : Settings)
    (obj : GlobalConfig) : Bool × Settings :=
  if obj.isEmpty then
    (false, settings)
  else
    match obj with
    | .object members =>
        (true,
          parseThreads members
            (parsePort members (parseHost members settings)))
    | _ => (false, settings)

/- The two files, as they were parsed. -/
structure Files where
  global : GlobalConfig
  handlers : Json

/- Whether everything is read; the rest is left out then. -/
def init
    (initSpdlog : Bool)
    (factory : HttpHandlerFactory)
    (files : Files) : Bool × Settings × HttpRouter :=
  if !initSpdlog then
    (false, {}, {})
  else
    let parsed := parseSettings {} files.global
    if !parsed.1 then
      (false, parsed.2, {})
    else
      let loaded :=
        parseHttpHandlerConfig factory {} files.handlers
      (loaded.1, parsed.2, loaded.2)

end Initializer

end Inks

------------------------------------------------------------
-- The Start
------------------------------------------------------------

namespace Inks

/- What the system and its libraries decide at the start. -/
structure Platform
    (A : Type) where
  initSpdlog : Bool
  makeAddress : ByteString → Option A
  -- Whether an acceptor can be made for an endpoint.
  listens : A → UInt16 → Bool

/- What is there when the event loop begins to run. -/
structure Started
    (A : Type) where
  address : A
  port : UInt16
  router : HttpRouter

namespace Startup

variable {A : Type}

def makeAcceptor
    (platform : Platform A)
    (address : A)
    (port : UInt16) : Bool :=
  platform.listens address port

/- `main` up to `ioc.run()`; it may fail before. -/
def main
    (factory : HttpHandlerFactory)
    (platform : Platform A)
    (files : Initializer.Files) : Option (Started A) :=
  let (ok, settings, router) :=
    Initializer.init platform.initSpdlog factory files
  if !ok then
    none
  else
    match platform.makeAddress settings.host with
    | none => none
    | some address =>
        if !makeAcceptor platform address settings.port then
          none
        else
          some
            { address := address
              port := settings.port
              router := router }

end Startup

end Inks

------------------------------------------------------------
-- What is Served
------------------------------------------------------------

namespace Inks

namespace Initializer

/-
  The server listens on the port in the file exactly when
  this is a port at all: others are not refused.
-/
theorem port_exact_iff
    {members : List (ByteString × Setting)}
    {port : UInt64}
    (hPort :
      members.lookup (text "port") = some (.unsigned port))
    (settings : Settings) :
    (parseSettings settings (.object members)).1 = true ∧
      ((parseSettings settings
            (.object members)).2.port.toNat = port.toNat ↔
        port.toNat < 65536) := by
  have hSome : members.isEmpty = false := by
    cases members with
    | nil => cases hPort
    | cons => rfl
  have hThreads (s : Settings) :
      (parseThreads members s).port = s.port := by
    unfold parseThreads
    split <;> rfl
  have hParsed :
      parseSettings settings (.object members) =
        (true,
          parseThreads members
            (parsePort members
              (parseHost members settings))) := by
    simp [parseSettings, GlobalConfig.isEmpty, hSome]
  rw [hParsed]
  refine ⟨rfl, ?_⟩
  simp only [hThreads]
  rw [parsePort, hPort]
  simp only [UInt64.toNat_toUInt16]
  omega

end Initializer

namespace Startup

variable {A P : Type}

/- The start succeeds when each of its parts does. -/
theorem main_eq_some_iff
    (factory : HttpHandlerFactory)
    (platform : Platform A)
    (files : Initializer.Files)
    (started : Started A) :
    let parsed := Initializer.parseSettings {} files.global
    main factory platform files = some started ↔
      platform.initSpdlog = true ∧
        parsed.1 = true ∧
        platform.makeAddress parsed.2.host =
          some started.address ∧
        parsed.2.port = started.port ∧
        platform.listens started.address started.port =
          true ∧
        ∃ entries,
          files.handlers = .array entries ∧
            entries.foldl (Initializer.loadEntry factory)
              {} = started.router := by
  intro parsed
  rcases started with ⟨address, port, router⟩
  have hParsed :
      Initializer.parseSettings {} files.global = parsed :=
    rfl
  simp only [main, Initializer.init, hParsed]
  cases platform.initSpdlog with
  | false => simp
  | true =>
      cases parsed.1 with
      | false => simp
      | true =>
          cases files.handlers with
          | array entries =>
              simp only [Initializer.parseHttpHandlerConfig,
                Bool.not_true, Bool.false_eq_true, if_false,
                true_and, Json.array.injEq,
                exists_eq_left']
              cases platform.makeAddress parsed.2.host with
              | none => simp
              | some made =>
                  simp only [makeAcceptor,
                    Option.some.injEq]
                  by_cases hListens :
                      platform.listens made parsed.2.port =
                        true
                  · simp only [hListens, Bool.not_true,
                      Bool.false_eq_true, if_false,
                      Option.some.injEq, Started.mk.injEq]
                    constructor
                    · rintro ⟨rfl, rfl, hRouter⟩
                      exact ⟨rfl, rfl, hListens, hRouter⟩
                    · rintro ⟨hAddress, hPort, _, hRouter⟩
                      exact ⟨hAddress, hPort, hRouter⟩
                  · rw [Bool.not_eq_true] at hListens
                    simp only [hListens, Bool.not_false,
                      if_true]
                    constructor
                    · intro hNone
                      cases hNone
                    · rintro ⟨rfl, rfl, hTrue, _⟩
                      rw [hListens] at hTrue
                      cases hTrue
          | _ => simp [Initializer.parseHttpHandlerConfig]

/-
  A server that starts serves what its files say: its routes
  are those of the last entries for their paths, and in
  every run of the event loop each session keeps to the
  protocol with these routes.
-/
theorem serves_files
    (beast : Framing.Reader UInt8 P HttpRequest)
    {factory : HttpHandlerFactory}
    {platform : Platform A}
    {files : Initializer.Files}
    {started : Started A}
    (hStarted :
      main factory platform files = some started) :
    ∃ entries,
      files.handlers = .array entries ∧
        (∀ path handler,
          started.router.routes.lookup path = some handler ↔
            Initializer.LastEntry factory entries path
              handler) ∧
        ∀ events,
          Transition.Always
            (Service.step beast started.router factory)
            (Service.Follow started.router factory)
            ({} : Service P) events := by
  rcases (main_eq_some_iff factory platform files started).mp
      hStarted with
    ⟨_, _, _, _, _, entries, hEntries, hRouter⟩
  refine ⟨entries, hEntries, ?_, ?_⟩
  · intro path handler
    rw [← hRouter]
    exact
      Initializer.lookup_load_iff factory entries path handler
  · intro events past _
    exact
      Service.follow_run beast started.router factory past

end Startup

end Inks
