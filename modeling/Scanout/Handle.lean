namespace Scanout

structure Handle where
  index : UInt32
  generation : UInt32
  deriving DecidableEq, Repr, Inhabited

structure LayerId extends Handle where
  deriving DecidableEq, Repr, Inhabited

structure OutputId extends Handle where
  deriving DecidableEq, Repr, Inhabited

def LayerId.label (id : LayerId) : String := s!"LayerId({id.index}@gen{id.generation})"

def OutputId.label (id : OutputId) : String := s!"OutputId({id.index}@gen{id.generation})"

end Scanout
