/-!
# Loading

A machine is loaded piece by piece: what was written stays written, also if a
later piece is refused. A loading is therefore a procedure on a state, and not a
function from one state to another that could fail as a whole.
-/

namespace Famicom

/-- A procedure that overwrites a state of type `σ` and may stop with an error.
The state keeps what was written before it stopped. -/
abbrev Loading (σ ε : Type) := ExceptT ε (StateM σ)

namespace Loading

variable {σ τ ε δ : Type}

def within (part : σ → τ) (put : τ → σ → σ) (l : Loading τ ε Unit) : Loading σ ε Unit :=
  fun s =>
    let (outcome, t) := l (part s)
    (outcome, put t s)

def mapError (f : ε → δ) (l : Loading σ ε Unit) : Loading σ δ Unit :=
  fun s =>
    let (outcome, s) := l s
    (outcome.mapError f, s)

/-- The loaded state, if nothing was refused. -/
def complete (l : Loading σ ε Unit) (s : σ) : Except ε σ :=
  let (outcome, s) := l s
  outcome.map fun _ => s

variable {α β : Type}

@[simp] theorem pure_apply (a : α) (s : σ) : (pure a : Loading σ ε α) s = (.ok a, s) := rfl

@[simp] theorem throw_apply (e : ε) (s : σ) : (throw e : Loading σ ε α) s = (.error e, s) := rfl

@[simp] theorem get_apply (s : σ) : (get : Loading σ ε σ) s = (.ok s, s) := rfl

@[simp] theorem modify_apply (f : σ → σ) (s : σ) :
    (modify f : Loading σ ε Unit) s = (.ok (), f s) := rfl

theorem mapError_apply (f : ε → δ) (l : Loading σ ε Unit) (s : σ) :
    l.mapError f s = match l s with
      | (.ok (), s) => (.ok (), s)
      | (.error e, s) => (.error (f e), s) := by
  unfold mapError
  rcases l s with ⟨_ | _, _⟩ <;> rfl

/-- What follows a loading starts in the state that was left behind, and is
skipped after an error. -/
@[simp] theorem bind_apply (l : Loading σ ε α) (k : α → Loading σ ε β) (s : σ) :
    (l >>= k) s = match l s with
      | (.ok a, s) => k a s
      | (.error e, s) => (.error e, s) := by
  simp only [bind, ExceptT.bind, ExceptT.mk, ExceptT.bindCont, StateT.bind]
  rcases l s with ⟨_ | _, _⟩ <;> rfl

end Loading

end Famicom
