import TieredWeights.Prefetch

/-!
# Descriptions

A value described for a person who inspects a run: the name of its kind and, between braces, those
of its fields that tell something.
-/
namespace TieredWeights

/-- Items between braces. -/
def braced (items : List String) : String := "\x7b" ++ ", ".intercalate items ++ "\x7d"

/-- A kind with its named fields. -/
def describeRecord (kind : String) (fields : List (String × String)) : String :=
  s!"{kind} \x7b " ++ ", ".intercalate (fields.map fun f => f.1 ++ ": " ++ f.2) ++ " \x7d"

def Tier.describe : Tier → String
  | disk => "Disk"
  | host => "Host"
  | accelerator i => s!"Accelerator({i})"

def ElementType.describe : ElementType → String
  | f16 => "F16"
  | bf16 => "BF16"
  | f32 => "F32"
  | f64 => "F64"
  | i8 => "I8"
  | u8 => "U8"
  | i32 => "I32"
  | i64 => "I64"

def describeSource (source : Nat) : String := s!"SourceId({source})"

def Identity.describe (i : Identity) : String :=
  describeRecord "TensorIdentity"
    [("source", describeSource i.source), ("byte_length", toString i.bytes),
      ("dtype", i.type.describe)]

def Tensor.describe (t : Tensor) : String :=
  describeRecord "SourceTensor"
    [("id", describeSource t.source), ("dtype", t.type.describe),
      ("shape", Text.bracketed (t.shape.map toString)), ("bytes", toString t.bytes.size)]

def Pool.describe (p : Pool) : String :=
  let folder :=
    match p.spill with
    | none => "None"
    | some folder => "Some(" ++ Text.quoted folder.written ++ ")"
  describeRecord "TierPool"
    [("tier", p.tier.describe), ("id", toString p.id), ("capacity", toString p.capacity),
      ("used", toString p.used), ("live_buffers", toString p.live), ("spill_dir", folder)]

def Placement.describe (p : Placement) : String :=
  describeRecord "CacheEntry"
    [("identity", p.key.identity.describe), ("tier", p.key.tier.describe),
      ("refs", toString p.references)]

def Cache.describe (c : Cache) : String :=
  let s := c.stats
  describeRecord "WeightCache"
    [("placements", braced (s.placements.toList.map fun x => s!"{x.1.describe}: {x.2}")),
      ("refs", toString s.references), ("hits", toString s.hits),
      ("misses", toString s.misses)]

def Prefetcher.describe (p : Prefetcher) : String :=
  describeRecord "BlockPrefetcher"
    [("blocks", toString p.blocks.size), ("lookahead", toString p.lookahead),
      ("pending", toString p.pending.size)]

end TieredWeights
