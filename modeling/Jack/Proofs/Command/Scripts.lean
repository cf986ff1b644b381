import Jack.Command.Unit

/-!
Computations that stop at each request to their host. What is done for a unit can be taken as such a
script, to be carried on request by request while others do the same.
-/

namespace Jack

/-- What can be asked of a host. -/
inductive Request where
  | kindAt (path : String)
  | read (path : String)
  | write (path contents : String)
  | makeDir (path : String)
  | list (path : String)
  | report (notice : Notice)
  | elapsed

namespace Request

def Answer : Request → Type
  | kindAt _ => Option EntryKind
  | read _ => Except FileError ByteArray
  | write _ _ | makeDir _ => Except FileError Unit
  | list _ => Except FileError (List String)
  | report _ => Unit
  | elapsed => String

def answer {m : Type → Type} [Host m] : (request : Request) → m request.Answer
  | kindAt path => Host.kindAt path
  | read path => Host.read path
  | write path contents => Host.write path contents
  | makeDir path => Host.makeDir path
  | list path => Host.list path
  | report notice => Host.report notice
  | elapsed => Host.elapsed

end Request

/-- A computation up to its first request, and what it does with the answer. -/
inductive Script (α : Type) where
  | done (value : α)
  | ask (request : Request) (next : request.Answer → Script α)

namespace Script

variable {α β : Type}

protected def bind : Script α → (α → Script β) → Script β
  | done value, f => f value
  | ask request next, f => ask request fun answer => (next answer).bind f

instance : Monad Script where
  pure := done
  bind := Script.bind

instance : Host Script where
  kindAt path := ask (.kindAt path) done
  read path := ask (.read path) done
  write path contents := ask (.write path contents) done
  makeDir path := ask (.makeDir path) done
  list path := ask (.list path) done
  report notice := ask (.report notice) done
  elapsed := ask .elapsed done

/-- Some answers take the one script to the other. -/
inductive Leads (script : Script α) : Script α → Prop
  | refl : Leads script script
  | answer {request : Request} {next : request.Answer → Script α} (a : request.Answer) :
    Leads script (ask request next) → Leads script (next a)

variable {m : Type → Type} [Monad m] [Host m]

/-- Has all requests answered by one host. -/
def run : Script α → m α
  | done value => pure value
  | ask request next => do run (next (← request.answer))

variable [LawfulMonad m]

theorem run_bind (script : Script α) (f : α → Script β) :
    (script >>= f).run = (script.run >>= fun value => (f value).run : m β) := by
  induction script with
  | done value => exact (pure_bind value fun value => (f value).run).symm
  | ask request next ih =>
    calc (ask request next >>= f).run
      _ = (request.answer >>= fun a => (next a >>= f).run : m β) := rfl
      _ = (request.answer >>= fun a => (next a).run >>= fun value => (f value).run : m β) := by
        simp only [ih]
      _ = _ := (bind_assoc _ _ _).symm

theorem run_read (path : String) : (Host.read path : Script _).run = (Host.read path : m _) :=
  bind_pure _

theorem run_write (path contents : String) :
    (Host.write path contents : Script _).run = (Host.write path contents : m _) :=
  bind_pure _

theorem run_report (notice : Notice) :
    (Host.report notice : Script _).run = (Host.report notice : m _) :=
  bind_pure _

theorem run_readText (path : String) : (readText path : Script _).run = (readText path : m _) := by
  unfold readText
  rw [run_bind, run_read]
  congr 1
  funext bytes
  cases bytes with
  | error e => rfl
  | ok bytes =>
    dsimp only
    cases String.fromUTF8? bytes <;> rfl

theorem run_execute (steps : List Step) :
    (execute steps : Script _).run = (execute steps : m _) := by
  induction steps with
  | nil => rfl
  | cons step steps ih =>
    cases step with
    | report notice => simp only [execute, run_bind, run_report, ih]
    | write path contents notice =>
      simp only [execute, run_bind, run_write]
      congr 1
      funext result
      cases result with
      | ok _ => simp only [run_bind, run_report, ih]
      | error e => rfl
    | fail failure => rfl

/-- A unit compiled request by request is compiled as by one host. -/
theorem run_compileUnit (settings : Settings) (path : String) :
    (compileUnit settings path : Script _).run = (compileUnit settings path : m _) := by
  unfold compileUnit
  rw [run_bind, run_readText]
  congr 1
  funext source
  cases source with
  | error e => rfl
  | ok source => exact run_execute _

end Script

end Jack
