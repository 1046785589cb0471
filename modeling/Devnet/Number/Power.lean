namespace Devnet

def tenTo (n : Nat) : Nat := Nat.pow 10 n

end Devnet
