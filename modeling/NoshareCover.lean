import NoshareCover.Core.Spec.BackendError
import NoshareCover.Core.Spec.Beginning
import NoshareCover.Core.Spec.CodedFile
import NoshareCover.Core.Spec.CoverIdentity
import NoshareCover.Core.Spec.CoverUse
import NoshareCover.Core.Spec.Delivery
import NoshareCover.Core.Spec.DropWorker
import NoshareCover.Core.Spec.EmptyPacket
import NoshareCover.Core.Spec.FirstPacket
import NoshareCover.Core.Spec.Fragment
import NoshareCover.Core.Spec.FrameStable
import NoshareCover.Core.Spec.GifBytes
import NoshareCover.Core.Spec.GifReference
import NoshareCover.Core.Spec.Gone
import NoshareCover.Core.Spec.Handover
import NoshareCover.Core.Spec.Loaders
import NoshareCover.Core.Spec.MissingFile
import NoshareCover.Core.Spec.NvdecDriver
import NoshareCover.Core.Spec.NvdecHeader
import NoshareCover.Core.Spec.NvdecState
import NoshareCover.Core.Spec.Pace
import NoshareCover.Core.Spec.PickDevice
import NoshareCover.Core.Spec.SpeedRange
import NoshareCover.Core.Spec.SpsLevel
import NoshareCover.Core.Spec.StblBytes
import NoshareCover.Core.Spec.StblWalk
import NoshareCover.Core.Spec.YuvBands
import NoshareCover.Shim.Spec.CommName
import NoshareCover.Shim.Spec.Composite
import NoshareCover.Shim.Spec.CoverTexture
import NoshareCover.Shim.Spec.EffectLeak
import NoshareCover.Shim.Spec.Fades
import NoshareCover.Shim.Spec.HoldOnce
import NoshareCover.Shim.Spec.LeftOut
import NoshareCover.Shim.Spec.MediaHides
import NoshareCover.Shim.Spec.Monitors
import NoshareCover.Shim.Spec.Notifications
import NoshareCover.Shim.Spec.Plugin
import NoshareCover.Shim.Spec.TextureCache
import NoshareCover.Shim.Spec.TwoClients
import NoshareCover.Core.Spec.Vaapi
import NoshareCover.Core.Spec.Refusals
import NoshareCover.Core.Spec.Moof
import NoshareCover.Core.Spec.Mp4File
