namespace Scanout

inductive Json where
  | null
  | bool (b : Bool)
  | number (n : Nat)
  | decimal (x : Float)
  | string (s : String)
  | array (items : List Json)
  | object (fields : List (String × Json))

end Scanout
