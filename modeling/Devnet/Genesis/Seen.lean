namespace Devnet.Seen

def add {κ ε : Type} [DecidableEq κ] (seen : List κ) (key : κ) (fault : ε) : Except ε (List κ) :=
  if key ∈ seen then .error fault else .ok (key :: seen)

end Devnet.Seen
