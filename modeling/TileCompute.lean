import TileCompute.Gemm
import TileCompute.Graph.Context
import TileCompute.Graph.Lowering
import TileCompute.Graph.Session
import TileCompute.Layer.Activation
import TileCompute.Layer.Arithmetic
import TileCompute.Layer.BatchNormalization
import TileCompute.Layer.Convolution
import TileCompute.Layer.DepthConcatenation
import TileCompute.Layer.DepthwiseConvolution
import TileCompute.Layer.DirectConvolution
import TileCompute.Layer.FullyConnected
import TileCompute.Layer.GemmConvolution
import TileCompute.Layer.Normalization
import TileCompute.Layer.Pooling
import TileCompute.Layer.Softmax
import TileCompute.Proofs.Canonical
import TileCompute.Proofs.ChannelConvolution
import TileCompute.Proofs.Checked
import TileCompute.Proofs.FixedProduct
import TileCompute.Proofs.FixedSequence
import TileCompute.Proofs.GemmLayer
import TileCompute.Proofs.InPlace
import TileCompute.Proofs.Launches
import TileCompute.Proofs.Monotone
import TileCompute.Proofs.Neighbourhood
import TileCompute.Proofs.NodeOutcome
import TileCompute.Proofs.Outcomes
import TileCompute.Proofs.PooledSession
import TileCompute.Proofs.Rearrangement
import TileCompute.Proofs.Registry
import TileCompute.Proofs.Reinterpretation
import TileCompute.Proofs.Reuse
import TileCompute.Proofs.Schedule
import TileCompute.Proofs.Stacking
import TileCompute.Proofs.StoresOnce
import TileCompute.Scratch.Group
