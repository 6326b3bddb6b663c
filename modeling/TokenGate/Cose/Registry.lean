import TokenGate.Cose.Label

/-!
# Registered numbers

The integers that name algorithms, key types, key operations, header parameters and content
formats. Each registry is a list of inclusive ranges.
-/

namespace TokenGate.Cose.Registry

/-- Whether a number is in one of some inclusive ranges. -/
def covers (ranges : List (Int × Int)) (n : Int) : Bool :=
  ranges.any fun (low, high) => low ≤ n && n ≤ high

/-- Algorithms: the registered ones, and everything in the range for private use. -/
def isAlgorithm (n : Int) : Bool :=
  n < -65536 || covers [(-65535, -65535), (-260, -257), (-47, -25), (-18, -10), (-8, -3), (0, 7),
    (10, 15), (24, 26), (30, 34)] n

/-- Key types: octet key pair, elliptic curve, RSA, symmetric, and two hash based ones. -/
def isKeyType (n : Int) : Bool := covers [(1, 6)] n

/-- Key operations, from signing to verifying a MAC. -/
def isKeyOperation (n : Int) : Bool := covers [(1, 10)] n

/-- Header parameters. -/
def isHeaderParameter (n : Int) : Bool :=
  covers [(0, 7), (9, 10), (32, 35), (256, 257)] n

/-- CoAP content formats. -/
def isContentFormat (n : Int) : Bool :=
  covers [(0, 0), (16, 18), (40, 42), (47, 47), (50, 52), (60, 63), (96, 98), (101, 102),
    (110, 115), (256, 256), (271, 271), (280, 287), (310, 311), (320, 320), (322, 322), (432, 432),
    (10000, 10001), (11050, 11050), (11060, 11060), (11542, 11544)] n

end TokenGate.Cose.Registry
